import PuCli.Library.Run
import PuCli.Serve.Lifecycle
import Mathlib.Data.List.Induction

namespace PuCli.Serve

def Job.Asks (job : Job) : Prop := ∃ question, job.question = some question ∧ question ≠ ""

namespace Board

variable {b b' : Board} {v : Tick × Verb} {vs : List (Tick × Verb)} {r : ActionResult} {job : Job}

-- The last verb to touch the job was a chase, and it found the job blocked.
def ChasedLast (vs : List (Tick × Verb)) (job : Job) : Prop :=
  ∃ before tick note after, vs = before ++ (tick, .chase job.id note) :: after ∧
    (∃ held, (serveAll {} before).find job.id = some held ∧ held.state = .blocked) ∧
    ∀ b ∈ Run.visited serve (serveAll {} (before ++ [(tick, .chase job.id note)])) after, job ∈ b.jobs

theorem serveAll_append (b : Board) (vs ws : List (Tick × Verb)) :
    b.serveAll (vs ++ ws) = (b.serveAll vs).serveAll ws :=
  List.foldl_append ..

theorem ChasedLast.extend (h : ChasedLast vs job) (hjob : job ∈ (serveAll {} (vs ++ [v])).jobs) :
    ChasedLast (vs ++ [v]) job := by
  obtain ⟨before,tick,note,after,rfl,hheld,hstays⟩ := h
  refine ⟨before,tick,note,after ++ [v],by simp,hheld,?_⟩
  intro b hb
  rw [Run.visited_append] at hb
  rcases List.mem_append.mp hb with hb | hlast
  · exact hstays b hb
  · rw [List.mem_singleton.mp hlast]
    have hend : serveAll {} ((before ++ (tick, .chase job.id note) :: after) ++ [v]) =
        serve (after.foldl serve (serveAll {} (before ++ [(tick, .chase job.id note)]))) v := by
      simp [serveAll]
    rw [← hend]
    exact hjob

theorem touched (h : Accepted b v r b') (hjob : job ∈ b'.jobs) : job ∈ b.jobs ∨ job = r.job := by
  cases h with
  | post h =>
      obtain ⟨due,_,_,_,rfl,rfl⟩ := post_ok h
      rcases List.mem_append.mp (mem_crowd hjob) with hold | hnew
      · exact .inl hold
      · exact .inr (List.mem_singleton.mp hnew)
  | update h =>
      obtain ⟨_,held,_,_,_,_,_,_,_,_,rfl⟩ := update_ok h
      exact (mem_setFirst hjob).symm
  | answer h =>
      obtain ⟨held,_,_,_,_,rfl⟩ := answer_ok h
      exact (mem_setFirst hjob).symm
  | chase h =>
      obtain ⟨held,_,_,_,rfl⟩ := chase_ok h
      exact (mem_setFirst hjob).symm
  | drop h =>
      obtain ⟨held,_,_,_,rfl⟩ := drop_ok h
      exact (mem_setFirst hjob).symm

theorem asks_of_update {tick : Tick} {request : JobRequest} (h : b.update tick request = .ok (r, b'))
    (hblocked : r.job.state = .blocked) : r.job.Asks := by
  obtain ⟨_,held,asked,moved,_,_,_,_,hm,hjob,_⟩ := update_ok h
  have hsame : r.job.state = moved.state ∧ r.job.question = moved.question := by
    rw [hjob]
    split <;> exact ⟨rfl,rfl⟩
  obtain ⟨_,_,hquestion,_⟩ := move_ok hm
  have hasked := hquestion (hsame.1.symm.trans hblocked)
  exact ⟨_,hsame.2.trans hasked.1,hasked.2⟩

theorem asks_or_chased_step (h : Accepted b v r b') (hblocked : r.job.state = .blocked) :
    r.job.Asks ∨ (∃ note, v.2 = .chase r.job.id note) ∧
      ∃ held, b.find r.job.id = some held ∧ held.state = .blocked := by
  cases h with
  | post h =>
      obtain ⟨due,_,_,_,rfl,_⟩ := post_ok h
      cases hblocked
  | update h => exact .inl (asks_of_update h hblocked)
  | answer h =>
      obtain ⟨held,_,_,_,rfl,_⟩ := answer_ok h
      cases hblocked
  | @chase tick id note r b' h =>
      obtain ⟨held,hfind,_,rfl,_⟩ := chase_ok h
      obtain rfl := id_of_find hfind
      exact .inr ⟨⟨note,rfl⟩,held,hfind,hblocked⟩
  | drop h =>
      obtain ⟨held,_,_,hjob,_⟩ := drop_ok h
      rw [hjob] at hblocked
      cases hblocked

theorem asks_or_chased (vs : List (Tick × Verb)) (hjob : job ∈ (serveAll {} vs).jobs)
    (hblocked : job.state = .blocked) : job.Asks ∨ ChasedLast vs job := by
  induction vs using List.reverseRecOn with
  | nil => cases hjob
  | append_singleton vs v ih =>
      have hold : job ∈ (serveAll {} vs).jobs → job.Asks ∨ ChasedLast (vs ++ [v]) job :=
        fun hmem => (ih hmem).imp_right (fun h => h.extend hjob)
      have hend : serveAll {} (vs ++ [v]) = (serveAll {} vs).serve v := serveAll_append ..
      rcases serve_cases (serveAll {} vs) v with ⟨hsame,_⟩ | ⟨r,haccepted⟩
      · refine hold ?_
        rwa [hend,hsame] at hjob
      · have hmem := hjob
        rw [hend] at hmem
        rcases touched haccepted hmem with hbefore | rfl
        · exact hold hbefore
        · refine (asks_or_chased_step haccepted hblocked).imp_right ?_
          rintro ⟨⟨note,hverb⟩,held⟩
          obtain ⟨tick,verb⟩ := v
          obtain rfl : verb = .chase r.job.id note := hverb
          refine ⟨vs,tick,note,[],rfl,held,?_⟩
          intro b hb
          rw [List.mem_singleton.mp hb]
          exact hjob

theorem blocked_asks_or_chased (vs : List (Tick × Verb)) :
    (∀ job ∈ (serveAll {} vs).jobs, job.state = .blocked → job.Asks ∨ ChasedLast vs job) ∧
      ∀ tick id text r b', (serveAll {} vs).answer tick id text = .ok (r, b') →
        ∃ held, (serveAll {} vs).find id = some held ∧ (held.Asks ∨ ChasedLast vs held) := by
  refine ⟨fun job hjob hblocked => asks_or_chased vs hjob hblocked,?_⟩
  intro tick id text r b' h
  obtain ⟨held,hfind,_,hblocked,_⟩ := answer_ok h
  exact ⟨held,hfind,asks_or_chased vs (List.mem_of_find?_eq_some hfind) hblocked⟩

theorem chased_blocked_asks_nothing :
    ¬ ∀ vs : List (Tick × Verb), ∀ job ∈ (serveAll {} vs).jobs, job.state = .blocked → job.Asks := by
  intro h
  have hleft : ∃ job ∈ (serveAll {} [postFor "1" "j1" "C" "tests",
      moveTo "2" "j1" "C" "blocked" "which branch?",
      (tickAt "3" "", .chase "j1" "how is it going")]).jobs,
      job.state = .blocked ∧ job.question = none := by
    decide
  obtain ⟨job,hjob,hblocked,hnone⟩ := hleft
  obtain ⟨question,hquestion,_⟩ := h _ job hjob hblocked
  rw [hnone] at hquestion
  cases hquestion

end Board

end PuCli.Serve
