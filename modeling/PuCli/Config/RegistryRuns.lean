import PuCli.Config.ServeRegistry
import PuCli.Library.Run

namespace PuCli

open Json

namespace ServeRegistry

def Op.Spares (pid : Int32) : Op → Prop
  | .register record => pid ≠ record.pid
  | .unregister gone => pid ≠ gone
  | .live => True

namespace World

variable {w : World} {t : TaskId} {task task' : Task} {pid : Int32} {record : ServeRecord}

def Holds (w : World) : Prop :=
  ∀ pid record, w.listed pid = some record → record ∈ recordsIn w.file

-- A server registers the record of its own process.
def Fits (w : World) : Move → Prop
  | .call _ pid (.register record) => record.pid = pid ∧ w.processes pid = some record.started
  | _ => True

-- Whoever gets in finds nobody inside without the lock.
def Guarded (w : World) : Move → Prop
  | .advance t => ∀ task, w.tasks t = some task → task.phase = .waiting →
      w.folder = false ∨ w.holder = none →
        ∀ t' task', w.tasks t' = some task' → task'.inside = true → task'.held = true
  | _ => True

structure Quiet (w : World) : Prop where
  tasks : ∀ t, w.tasks t = none
  holder : w.holder = none
  processes : ∀ pid, (w.processes pid).isSome → 0 < pid
  listed : ∀ pid record, w.listed pid = some record →
    record.pid = pid ∧ w.processes pid = some record.started

structure Locks (w : World) : Prop where
  alone : ∀ {t t' task task'}, w.tasks t = some task → task.inside = true →
    w.tasks t' = some task' → task'.inside = true → t = t'
  holder : ∀ {t task}, w.tasks t = some task → task.inside = true → task.held = true →
    w.holder = some t
  folder : w.holder ≠ none → w.folder = true

structure Accounts (w : World) : Prop where
  alive : ∀ {pid}, (w.processes pid).isSome → 0 < pid
  listed : ∀ {pid record}, w.listed pid = some record →
    record.pid = pid ∧ w.processes pid = some record.started
  owned : ∀ {t task}, w.tasks t = some task → ∃ token, w.processes task.process = some token ∧
    ∀ record, task.op = .register record → record.pid = task.process ∧ record.started = token

def Covers (w : World) (op : Op) (records : List ServeRecord) : Prop :=
  ∀ pid record, w.listed pid = some record → op.Spares pid → record ∈ records

-- What the operation that is inside has in its hands.
def Progress (w : World) (task : Task) : Prop :=
  match task.phase with
  | .sifting _ left kept => w.Covers task.op ((kept ++ left).map recordFromJson)
  | .written => ∃ doc, w.temps task.process = some doc ∧ w.Covers task.op (recordsIn (some doc)) ∧
      ∀ record, task.op = .register record → record ∈ recordsIn (some doc)
  | _ => True

structure Sane (w : World) : Prop where
  locks : w.Locks
  accounts : w.Accounts
  holds : w.Holds
  progress : ∀ {t task}, w.tasks t = some task → w.Progress task

theorem progress_of_outside (h : task.inside = false) : w.Progress task := by
  unfold Task.inside at h
  unfold Progress
  cases hp : task.phase with
  | waiting => trivial
  | _ => simp [hp] at h

theorem Quiet.sane (h : w.Quiet) (hh : w.Holds) : w.Sane := by
  have hnone {t : TaskId} {task : Task} (ht : w.tasks t = some task) : False := by
    rw [h.tasks t] at ht
    cases ht
  exact ⟨⟨fun ht => (hnone ht).elim,fun ht => (hnone ht).elim,fun hc => absurd h.holder hc⟩,
    ⟨fun hs => h.processes _ hs,fun hl => h.listed _ _ hl,fun ht => (hnone ht).elim⟩,hh,
    fun ht => (hnone ht).elim⟩

theorem update_self (w : World) (t : TaskId) (task : Task) :
    (w.update t task).tasks t = some task := Function.update_self ..

theorem update_ne {t' : TaskId} (h : t' ≠ t) (w : World) (task : Task) :
    (w.update t task).tasks t' = w.tasks t' := Function.update_of_ne h ..

theorem tasks_update {t' : TaskId} {other : Task} (h : (w.update t task').tasks t' = some other) :
    (t' = t ∧ other = task') ∨ (t' ≠ t ∧ w.tasks t' = some other) := by
  by_cases ht : t' = t
  · subst ht
    rw [update_self] at h
    exact .inl ⟨rfl,(Option.some.inj h).symm⟩
  · rw [update_ne ht] at h
    exact .inr ⟨ht,h⟩

theorem Locks.update {w' : World} (h : w.Locks) (ht : w.tasks t = some task)
    (hin : task.inside = true) (hw : w'.tasks = (w.update t task').tasks)
    (hheld : task'.held = task.held) (hl : w'.holder = w.holder)
    (hf : w.folder = true → w'.folder = true) : w'.Locks := by
  have hold {t₁ : TaskId} {task₁ : Task} (h₁ : w'.tasks t₁ = some task₁)
      (hi₁ : task₁.inside = true) : t₁ = t := by
    rw [hw] at h₁
    obtain ⟨rfl,-⟩ | ⟨-,h₁⟩ := tasks_update h₁
    · rfl
    · exact h.alone h₁ hi₁ ht hin
  constructor
  · intro t₁ t₂ task₁ task₂ h₁ hi₁ h₂ hi₂
    exact (hold h₁ hi₁).trans (hold h₂ hi₂).symm
  · intro t₁ task₁ h₁ hi₁ hh₁
    rw [hl]
    rw [hw] at h₁
    obtain ⟨rfl,rfl⟩ | ⟨-,h₁⟩ := tasks_update h₁
    · exact h.holder ht hin (hheld ▸ hh₁)
    · exact h.holder h₁ hi₁ hh₁
  · rw [hl]
    exact fun hn => hf (h.folder hn)

theorem Accounts.update {w' : World} (h : w.Accounts) (ht : w.tasks t = some task)
    (hw : w'.tasks = (w.update t task').tasks) (hp : task'.process = task.process)
    (ho : task'.op = task.op) (hr : w'.processes = w.processes)
    (hl : w'.listed = w.listed) : w'.Accounts := by
  refine ⟨?_,?_,?_⟩
  · rw [hr]
    exact h.alive
  · rw [hr,hl]
    exact h.listed
  · intro t₁ task₁ h₁
    rw [hr]
    rw [hw] at h₁
    obtain ⟨rfl,rfl⟩ | ⟨-,h₁⟩ := tasks_update h₁
    · rw [hp,ho]
      exact h.owned ht
    · exact h.owned h₁

-- One operation at a time is inside, so what it does is nobody else's progress.
theorem progress_update {w' : World} (h : w.Locks) (ht : w.tasks t = some task)
    (hin : task.inside = true) (hw : w'.tasks = (w.update t task').tasks) (hp : w'.Progress task') :
    ∀ {t₁ task₁}, w'.tasks t₁ = some task₁ → w'.Progress task₁ := by
  intro t₁ task₁ h₁
  rw [hw] at h₁
  obtain ⟨-,rfl⟩ | ⟨hne,h₁⟩ := tasks_update h₁
  · exact hp
  · cases hi : task₁.inside with
    | true => exact absurd (h.alone h₁ hi ht hin) hne
    | false => exact progress_of_outside hi

-- The operation that is inside goes on to its next phase.
theorem Sane.update {w' : World} (h : w.Sane) (ht : w.tasks t = some task)
    (hin : task.inside = true) {phase : Phase}
    (hw : w'.tasks = (w.update t { task with phase := phase }).tasks) (hl : w'.holder = w.holder)
    (hf : w.folder = true → w'.folder = true) (hr : w'.processes = w.processes)
    (hs : w'.listed = w.listed) (hfile : w'.file = w.file)
    (hp : w'.Progress { task with phase := phase }) : w'.Sane := by
  refine ⟨h.locks.update ht hin hw rfl hl hf,h.accounts.update ht hw rfl rfl hr hs,?_,
    progress_update h.locks ht hin hw hp⟩
  intro pid record hlisted
  rw [hs] at hlisted
  rw [hfile]
  exact h.holds pid record hlisted

theorem running_of_listed (h : w.Accounts) (hl : w.listed pid = some record) :
    record.pid = pid ∧ w.processRunning record.pid = true ∧ w.stillRunning record = true := by
  obtain ⟨hpid,htoken⟩ := h.listed hl
  have hpos : ¬ pid ≤ 0 := Int32.not_le.mpr (h.alive (by rw [htoken]; rfl))
  have hrun : w.processRunning pid = true := by
    rw [processRunning,if_neg hpos,htoken]
    rfl
  have hnow : w.processStartToken pid = record.started := by
    rw [processStartToken,if_neg hpos,htoken]
    rfl
  rw [hpid]
  refine ⟨rfl,hrun,?_⟩
  simp only [stillRunning,hpid,hrun,hnow]
  simp

theorem keeps_listed (h : w.Accounts) (hl : w.listed pid = some record) {op : Op}
    (hs : op.Spares pid) {item : Json} (hi : recordFromJson item = record) :
    w.keeps item op = true := by
  obtain ⟨hpid,hrun,hstill⟩ := running_of_listed h hl
  unfold keeps
  rw [hi]
  cases op with
  | register own =>
      rw [hpid] at hrun ⊢
      simpa [hrun] using (show pid ≠ own.pid from hs)
  | unregister gone =>
      rw [hpid]
      simpa using (show pid ≠ gone from hs)
  | live => exact hstill

theorem Sane.enter (h : w.Sane) (ht : w.tasks t = some task) {held : Bool} {holder : Option TaskId}
    (hfree : ∀ t' task', w.tasks t' = some task' → task'.inside = false)
    (hheld : held = true → holder = some t) (hfolder : holder ≠ none → w.folder = true) :
    ({ w.update t { task with phase := .entered, held := held } with holder := holder } : World).Sane := by
  have hin {t₁ : TaskId} {task₁ : Task}
      (h₁ : (w.update t { task with phase := .entered, held := held }).tasks t₁ = some task₁)
      (hi₁ : task₁.inside = true) :
      t₁ = t ∧ task₁ = { task with phase := .entered, held := held } := by
    obtain hself | ⟨-,h₁⟩ := tasks_update h₁
    · exact hself
    · rw [hfree _ _ h₁] at hi₁
      cases hi₁
  refine ⟨⟨?_,?_,hfolder⟩,?_,h.holds,?_⟩
  · intro t₁ t₂ task₁ task₂ h₁ hi₁ h₂ hi₂
    exact (hin h₁ hi₁).1.trans (hin h₂ hi₂).1.symm
  · intro t₁ task₁ h₁ hi₁ hh₁
    obtain ⟨rfl,rfl⟩ := hin h₁ hi₁
    exact hheld hh₁
  · exact h.accounts.update ht rfl rfl rfl rfl rfl
  · intro t₁ task₁ h₁
    obtain ⟨-,rfl⟩ | ⟨-,h₁⟩ := tasks_update h₁
    · trivial
    · exact progress_of_outside (hfree _ _ h₁)

theorem Sane.lock (h : w.Sane) (ht : w.tasks t = some task)
    (hg : w.folder = false ∨ w.holder = none →
      ∀ t' task', w.tasks t' = some task' → task'.inside = true → task'.held = true) :
    (w.lock t task).Sane := by
  -- With no lock to be had nobody can hold it, so the guard leaves the place empty.
  have hfree (hout : w.folder = false ∨ w.holder = none) (t' : TaskId) (task' : Task)
      (ht' : w.tasks t' = some task') : task'.inside = false := by
    refine Bool.eq_false_iff.mpr (fun hi => ?_)
    have hholder := h.locks.holder ht' hi (hg hout t' task' ht' hi)
    obtain hf | hn := hout
    · have := h.locks.folder (by rw [hholder]; simp)
      rw [hf] at this
      cases this
    · rw [hn] at hholder
      cases hholder
  unfold World.lock
  cases hf : w.folder with
  | false =>
      have hnone : w.holder = none := by
        by_contra hn
        have := h.locks.folder hn
        rw [hf] at this
        cases this
      exact h.enter ht (hfree (.inl hf)) (fun hc => by cases hc) (fun hc => absurd hnone hc)
  | true =>
      cases hh : w.holder with
      | some other => exact h
      | none => exact h.enter ht (hfree (.inr hh)) (fun _ => rfl) (fun _ => hf)

theorem Sane.read (h : w.Sane) (ht : w.tasks t = some task) (hin : task.inside = true) :
    (w.read t task).Sane := by
  refine h.update ht hin rfl rfl id rfl rfl rfl ?_
  intro pid record hl _
  exact h.holds pid record hl

theorem Sane.writeRecords (h : w.Sane) (ht : w.tasks t = some task) (hin : task.inside = true)
    {records : List Json} (hc : w.Covers task.op (records.map recordFromJson))
    (hown : ∀ record, task.op = .register record → record ∈ records.map recordFromJson) :
    (w.writeRecords t task records).Sane := by
  refine h.update ht hin rfl rfl (fun _ => rfl) rfl rfl rfl ?_
  refine ⟨(document records).reread .plain,Function.update_self ..,?_,?_⟩
  · intro pid record hl hs
    rw [recordsIn_document]
    exact hc pid record hl hs
  · intro record ho
    rw [recordsIn_document]
    exact hown record ho

theorem covers_sift {item : Json} {left kept : List Json} {op : Op} (h : w.Accounts)
    (hc : w.Covers op ((kept ++ item :: left).map recordFromJson)) :
    w.Covers op (((if w.keeps item op then kept ++ [item] else kept) ++ left).map
      recordFromJson) := by
  intro pid record hl hs
  obtain ⟨found,hmem,hrec⟩ := List.mem_map.mp (hc pid record hl hs)
  refine List.mem_map.mpr ⟨found,?_,hrec⟩
  rw [List.mem_append,List.mem_cons] at hmem
  rw [List.mem_append]
  obtain hk | rfl | hleft := hmem
  · refine .inl ?_
    split
    · exact List.mem_append_left _ hk
    · exact hk
  · rw [if_pos (keeps_listed h hl hs hrec)]
    exact .inl (by simp)
  · exact .inr hleft

theorem Sane.sift (h : w.Sane) (ht : w.tasks t = some task) {stored : Nat} {left kept : List Json}
    (hp : task.phase = .sifting stored left kept) : (w.sift t task stored left kept).Sane := by
  have hin : task.inside = true := by rw [Task.inside,hp]
  have hc : w.Covers task.op ((kept ++ left).map recordFromJson) := by
    have := h.progress ht
    unfold Progress at this
    rwa [hp] at this
  cases left with
  | cons item left =>
      have hnext := covers_sift h.accounts hc
      exact h.update ht hin rfl rfl id rfl rfl rfl hnext
  | nil =>
      rw [List.append_nil] at hc
      obtain ⟨process,op,phase,held⟩ := task
      cases op with
      | live =>
          unfold World.sift
          simp only
          split
          · exact h.update ht hin rfl rfl id rfl rfl rfl trivial
          · exact h.writeRecords ht hin hc (fun record hr => by cases hr)
      | unregister gone => exact h.writeRecords ht hin hc (fun record hr => by cases hr)
      | register own =>
          refine h.writeRecords ht hin ?_ ?_
          · intro pid record hl hs
            rw [output,List.map_append]
            exact List.mem_append_left _ (hc pid record hl hs)
          · intro record hr
            obtain rfl := Op.register.inj hr
            simp [output,recordFromJson_recordToJson]

theorem settle_cases {listed : Int32 → Option ServeRecord} {op : Op}
    (h : settle listed op pid = some record) :
    (op = .register record ∧ pid = record.pid) ∨ (listed pid = some record ∧ op.Spares pid) := by
  cases op with
  | live => exact .inr ⟨h,trivial⟩
  | register own =>
      by_cases hp : pid = own.pid
      · subst hp
        rw [settle,Function.update_self] at h
        obtain rfl := Option.some.inj h
        exact .inl ⟨rfl,rfl⟩
      · rw [settle,Function.update_of_ne hp] at h
        exact .inr ⟨h,hp⟩
  | unregister gone =>
      by_cases hp : pid = gone
      · subst hp
        rw [settle,Function.update_self] at h
        cases h
      · rw [settle,Function.update_of_ne hp] at h
        exact .inr ⟨h,hp⟩

theorem Sane.rename (h : w.Sane) (ht : w.tasks t = some task) (hp : task.phase = .written) :
    (w.rename t task).Sane := by
  have hin : task.inside = true := by rw [Task.inside,hp]
  obtain ⟨doc,hdoc,hcovers,hown⟩ : ∃ doc, w.temps task.process = some doc ∧
      w.Covers task.op (recordsIn (some doc)) ∧
      ∀ record, task.op = .register record → record ∈ recordsIn (some doc) := by
    have := h.progress ht
    unfold Progress at this
    rwa [hp] at this
  have hfile : (w.rename t task).file = some doc := by
    rw [World.rename,hdoc]
    rfl
  obtain ⟨token,htoken,haccount⟩ := h.accounts.owned ht
  have hupdate : (w.update t { task with phase := .leaving }).Accounts :=
    h.accounts.update ht rfl rfl rfl rfl rfl
  have hlocks : (w.rename t task).Locks := h.locks.update ht hin rfl rfl rfl id
  have hleaving : (w.rename t task).Progress { task with phase := .leaving } := trivial
  have hprogress {t₁ : TaskId} {task₁ : Task} (h₁ : (w.rename t task).tasks t₁ = some task₁) :
      (w.rename t task).Progress task₁ :=
    @progress_update w t task _ (w.rename t task) h.locks ht hin rfl hleaving t₁ task₁ h₁
  refine ⟨hlocks,⟨h.accounts.alive,?_,hupdate.owned⟩,?_,hprogress⟩
  · intro pid record hl
    obtain ⟨ho,rfl⟩ | ⟨hl,-⟩ := settle_cases hl
    · obtain ⟨hpid,hstarted⟩ := haccount record ho
      exact ⟨rfl,by rw [hpid,hstarted]; exact htoken⟩
    · exact h.accounts.listed hl
  · intro pid record hl
    rw [hfile]
    obtain ⟨ho,-⟩ | ⟨hl,hs⟩ := settle_cases hl
    · exact hown record ho
    · exact hcovers pid record hl hs

theorem tasks_unlock {t' : TaskId} (h : (w.unlock t task').tasks t' = some task) :
    t' ≠ t ∧ w.tasks t' = some task := by
  by_cases ht : t' = t
  · subst ht
    change Function.update w.tasks t' none t' = some task at h
    rw [Function.update_self] at h
    cases h
  · change Function.update w.tasks t none t' = some task at h
    rw [Function.update_of_ne ht] at h
    exact ⟨ht,h⟩

theorem Sane.unlock (h : w.Sane) (ht : w.tasks t = some task) (hin : task.inside = true) :
    (w.unlock t task).Sane := by
  have houtside {t₁ : TaskId} {task₁ : Task} (h₁ : (w.unlock t task).tasks t₁ = some task₁) :
      task₁.inside = false := by
    obtain ⟨hne,h₁⟩ := tasks_unlock h₁
    exact Bool.eq_false_iff.mpr (fun hi => hne (h.locks.alone h₁ hi ht hin))
  refine ⟨⟨?_,?_,?_⟩,⟨h.accounts.alive,h.accounts.listed,?_⟩,h.holds,?_⟩
  · intro t₁ t₂ task₁ task₂ h₁ hi₁
    rw [houtside h₁] at hi₁
    cases hi₁
  · intro t₁ task₁ h₁ hi₁
    rw [houtside h₁] at hi₁
    cases hi₁
  · intro hn
    refine h.locks.folder (fun hc => hn ?_)
    change (if task.held = true then none else w.holder) = none
    rw [hc]
    split <;> rfl
  · exact fun h₁ => h.accounts.owned (tasks_unlock h₁).2
  · exact fun h₁ => progress_of_outside (houtside h₁)

theorem tasks_die {t' : TaskId} (h : (w.die pid).tasks t' = some task) :
    w.tasks t' = some task ∧ task.process ≠ pid ∧ w.ofProcess pid t' = false := by
  change (if w.ofProcess pid t' = true then none else w.tasks t') = some task at h
  split at h
  · cases h
  · next ho =>
      refine ⟨h,?_,Bool.eq_false_iff.mpr ho⟩
      rintro rfl
      exact ho (by rw [ofProcess,h]; simp)

theorem Progress.anti {w' : World} (h : w.Progress task) (ht : w'.temps = w.temps)
    (hl : ∀ pid record, w'.listed pid = some record → w.listed pid = some record) :
    w'.Progress task := by
  unfold Progress at h ⊢
  cases hp : task.phase with
  | sifting stored left kept =>
      rw [hp] at h
      exact fun pid record hr hs => h pid record (hl pid record hr) hs
  | written =>
      rw [hp] at h
      obtain ⟨doc,hdoc,hcovers,hown⟩ := h
      exact ⟨doc,by rw [ht]; exact hdoc,fun pid record hr hs => hcovers pid record (hl pid record hr) hs,
        hown⟩
  | _ => trivial

theorem Sane.die (h : w.Sane) (pid : Int32) : (w.die pid).Sane := by
  have hlisted (other : Int32) (record : ServeRecord) (hl : (w.die pid).listed other = some record) :
      other ≠ pid ∧ w.listed other = some record := by
    by_cases hp : other = pid
    · subst hp
      change Function.update w.listed other none other = some record at hl
      rw [Function.update_self] at hl
      cases hl
    · change Function.update w.listed pid none other = some record at hl
      rw [Function.update_of_ne hp] at hl
      exact ⟨hp,hl⟩
  have hprocess {other : Int32} (hp : other ≠ pid) :
      (w.die pid).processes other = w.processes other := Function.update_of_ne hp ..
  refine ⟨⟨?_,?_,?_⟩,⟨?_,?_,?_⟩,?_,?_⟩
  · exact fun h₁ hi₁ h₂ hi₂ => h.locks.alone (tasks_die h₁).1 hi₁ (tasks_die h₂).1 hi₂
  · intro t₁ task₁ h₁ hi₁ hh₁
    obtain ⟨h₁,-,ho⟩ := tasks_die h₁
    change w.holder.filter _ = some t₁
    rw [h.locks.holder h₁ hi₁ hh₁]
    simp [ho]
  · intro hn
    refine h.locks.folder (fun hc => hn ?_)
    change w.holder.filter _ = none
    rw [hc]
    rfl
  · intro other hs
    by_cases hp : other = pid
    · subst hp
      change (Function.update w.processes other none other).isSome at hs
      rw [Function.update_self] at hs
      cases hs
    · rw [hprocess hp] at hs
      exact h.accounts.alive hs
  · intro other record hl
    obtain ⟨hp,hl⟩ := hlisted other record hl
    rw [hprocess hp]
    exact h.accounts.listed hl
  · intro t₁ task₁ h₁
    obtain ⟨h₁,hp,-⟩ := tasks_die h₁
    rw [hprocess hp]
    exact h.accounts.owned h₁
  · exact fun other record hl => h.holds other record (hlisted other record hl).2
  · exact fun h₁ => (h.progress (tasks_die h₁).1).anti rfl (fun other record hl => (hlisted other record hl).2)

theorem Sane.start (h : w.Sane) {token : String} (hpos : 0 < pid) (hfree : w.processes pid = none) :
    ({ w with processes := Function.update w.processes pid (some token) } : World).Sane := by
  have hprocess {other : Int32} {now : String} (hp : w.processes other = some now) :
      Function.update w.processes pid (some token) other = some now := by
    have hne : other ≠ pid := by
      rintro rfl
      rw [hfree] at hp
      cases hp
    rw [Function.update_of_ne hne,hp]
  refine ⟨⟨h.locks.alone,h.locks.holder,h.locks.folder⟩,⟨?_,?_,?_⟩,h.holds,?_⟩
  · intro other hs
    by_cases hp : other = pid
    · exact hp ▸ hpos
    · have hsame : Function.update w.processes pid (some token) other = w.processes other :=
        Function.update_of_ne hp ..
      exact h.accounts.alive (hsame ▸ hs)
  · intro other record hl
    obtain ⟨hpid,htoken⟩ := h.accounts.listed hl
    exact ⟨hpid,hprocess htoken⟩
  · intro t₁ task₁ h₁
    obtain ⟨now,hnow,haccount⟩ := h.accounts.owned h₁
    exact ⟨now,hprocess hnow,haccount⟩
  · exact fun h₁ => (h.progress h₁).anti rfl (fun _ _ hl => hl)

theorem Sane.call (h : w.Sane) (t : TaskId) {op : Op} {token : String}
    (hp : w.processes pid = some token)
    (hown : ∀ record, op = .register record → record.pid = pid ∧ record.started = token) :
    (w.update t { process := pid, op := op }).Sane := by
  have hold {t₁ : TaskId} {task₁ : Task}
      (h₁ : (w.update t { process := pid, op := op }).tasks t₁ = some task₁)
      (hi₁ : task₁.inside = true) : w.tasks t₁ = some task₁ := by
    obtain ⟨-,rfl⟩ | ⟨-,h₁⟩ := tasks_update h₁
    · cases hi₁
    · exact h₁
  refine ⟨⟨?_,?_,h.locks.folder⟩,⟨h.accounts.alive,h.accounts.listed,?_⟩,h.holds,?_⟩
  · exact fun h₁ hi₁ h₂ hi₂ => h.locks.alone (hold h₁ hi₁) hi₁ (hold h₂ hi₂) hi₂
  · exact fun h₁ hi₁ hh₁ => h.locks.holder (hold h₁ hi₁) hi₁ hh₁
  · intro t₁ task₁ h₁
    obtain ⟨-,rfl⟩ | ⟨-,h₁⟩ := tasks_update h₁
    · exact ⟨token,hp,hown⟩
    · exact h.accounts.owned h₁
  · intro t₁ task₁ h₁
    obtain ⟨-,rfl⟩ | ⟨-,h₁⟩ := tasks_update h₁
    · trivial
    · exact (h.progress h₁).anti rfl (fun _ _ hl => hl)

theorem Sane.step (h : w.Sane) {move : Move} (hf : w.Fits move) (hg : w.Guarded move) :
    (w.step move).Sane := by
  cases move with
  | start pid token =>
      unfold World.step
      simp only
      split
      · next hs => exact h.start hs.1 hs.2
      · exact h
  | die pid => exact h.die pid
  | call t pid op =>
      unfold World.step
      simp only
      split
      · next hs =>
          obtain ⟨token,htoken⟩ := Option.isSome_iff_exists.mp hs.2
          refine h.call t htoken ?_
          rintro record rfl
          exact ⟨hf.1,Option.some.inj (hf.2.symm.trans htoken)⟩
      · exact h
  | advance t =>
      unfold World.step World.advance
      simp only
      cases ht : w.tasks t with
      | none => exact h
      | some task =>
          simp only
          cases hp : task.phase with
          | waiting => exact h.lock ht (hg task ht hp)
          | entered => exact h.read ht (by rw [Task.inside,hp])
          | sifting stored left kept => exact h.sift ht hp
          | written => exact h.rename ht hp
          | leaving => exact h.unlock ht (by rw [Task.inside,hp])

theorem no_lost_registration {moves : List Move} (hq : w.Quiet) (hh : w.Holds)
    (hf : Run.Along step Fits w moves) (hg : Run.Along step Guarded w moves) :
    ∀ w' ∈ Run.visited step w moves, w'.Holds := by
  have hboth := Run.along_and.mpr ⟨hf,hg⟩
  have hinv : ∀ (w : World) (move : Move), w.Sane → (w.Fits move ∧ w.Guarded move) →
      (w.step move).Sane := fun _ _ hs hm => hs.step hm.1 hm.2
  intro w' hw'
  exact (Run.visited_inv hinv (hq.sane hh) hboth w' hw').holds

def one : ServeRecord where
  directory := "/work/one"
  bind := "127.0.0.1"
  port := 8087
  pid := 1
  started := "a"

def two : ServeRecord where
  directory := "/work/two"
  bind := "127.0.0.1"
  port := 8088
  pid := 2
  started := "b"

def home (folder : Bool) : World where
  folder := folder
  file := none
  processes pid := if pid = 1 then some "a" else if pid = 2 then some "b" else none

theorem quiet_home (folder : Bool) : (home folder).Quiet := by
  refine ⟨fun _ => rfl,rfl,?_,fun pid record hl => by cases hl⟩
  intro pid hs
  change ((if pid = 1 then some "a" else if pid = 2 then some "b" else none) : Option String).isSome
    at hs
  split at hs
  · next hp => subst hp; decide
  · split at hs
    · next hp => subst hp; decide
    · cases hs

theorem holds_home (folder : Bool) : (home folder).Holds := by
  intro pid record hl
  cases hl

def takingTurns : List Move :=
  [.call 0 1 (.register one), .call 1 2 (.register two), .advance 0, .advance 1, .advance 0,
    .advance 0, .advance 0]

def together : List Move :=
  [.call 0 1 (.register one), .call 1 2 (.register two), .advance 0, .advance 1, .advance 0,
    .advance 1, .advance 0, .advance 0, .advance 0, .advance 1, .advance 1, .advance 1]

theorem guarded_of_outside (h : ∀ t' task', w.tasks t' = some task' → task'.inside = false) :
    w.Guarded (.advance t) := by
  intro task _ _ _ t' task' ht' hi'
  rw [h t' task' ht'] at hi'
  cases hi'

theorem guarded_of_inside (h : (w.tasks t).any Task.inside = true) : w.Guarded (.advance t) := by
  intro task ht hp
  rw [ht] at h
  change task.inside = true at h
  rw [Task.inside,hp] at h
  cases h

theorem guarded_of_busy (hf : w.folder = true) (hh : w.holder ≠ none) : w.Guarded (.advance t) := by
  rintro task - - (hc | hc)
  · rw [hf] at hc
    cases hc
  · exact absurd hc hh

theorem registered_in_turn :
    (takingTurns.foldl step (home true)).listed 1 = some one ∧
      ∀ w ∈ Run.visited step (home true) takingTurns, w.Holds := by
  refine ⟨rfl,no_lost_registration (quiet_home true) (holds_home true) ?_ ?_⟩
  · exact ⟨⟨rfl,rfl⟩,⟨rfl,rfl⟩,trivial,trivial,trivial,trivial,trivial,trivial⟩
  · have hfirst : ∀ t' task', ((takingTurns.take 2).foldl step (home true)).tasks t' = some task' →
        task'.inside = false := by
      intro t' task' ht'
      obtain ⟨-,rfl⟩ | ⟨-,ht'⟩ := tasks_update ht'
      · rfl
      · obtain ⟨-,rfl⟩ | ⟨-,ht'⟩ := tasks_update ht'
        · rfl
        · cases ht'
    have hheld : ((takingTurns.take 3).foldl step (home true)).holder ≠ none := by decide
    exact ⟨trivial,trivial,guarded_of_outside hfirst,guarded_of_busy rfl hheld,
      guarded_of_inside rfl,guarded_of_inside rfl,guarded_of_inside rfl,trivial⟩

theorem lost_without_folder :
    (home false).Quiet ∧ (home false).Holds ∧ Run.Along step Fits (home false) together ∧
      (together.foldl step (home false)).tasks 0 = none ∧
      (together.foldl step (home false)).tasks 1 = none ∧
      (together.foldl step (home false)).listed 1 = some one ∧
      (together.foldl step (home false)).stillRunning one = true ∧
      recordsIn (together.foldl step (home false)).file = [two] ∧
      ¬ (together.foldl step (home false)).Holds := by
  have hlisted : (together.foldl step (home false)).listed 1 = some one := by rfl
  have hfile : recordsIn (together.foldl step (home false)).file = [two] := by decide
  refine ⟨quiet_home false,holds_home false,?_,rfl,rfl,hlisted,by decide,hfile,?_⟩
  · exact ⟨⟨rfl,rfl⟩,⟨rfl,rfl⟩,trivial,trivial,trivial,trivial,trivial,trivial,trivial,trivial,trivial,
      trivial,trivial⟩
  · intro h
    have hmem := h 1 one hlisted
    rw [hfile] at hmem
    revert hmem
    decide

end World

end ServeRegistry

end PuCli
