import PuCli.Core.Sse
import PuCli.Library.LineFraming

namespace PuCli

namespace HttpTransport

open Framing Lines Sse

def kDataField : List UInt8 := kData ++ [kColon]
def kEventField : List UInt8 := kEvent ++ [kColon]
def kIdField : List UInt8 := kId ++ [kColon]
def kRetryField : List UInt8 := kRetry ++ [kColon]

def dataPayload (line : List UInt8) : List UInt8 :=
  let payload := line.drop kDataField.length
  if payload.head? = some kSpace then payload.tail else payload

-- The calls of `on_message_`, which never throws.
def emitLine (line : List UInt8) : List (List UInt8) :=
  if line.isEmpty then []
  else if kDataField.isPrefixOf line then
    let payload := dataPayload line
    if payload = kDone then [] else if payload.isEmpty then [] else [payload]
  else if kEventField.isPrefixOf line ∨ kIdField.isPrefixOf line ∨ kRetryField.isPrefixOf line then []
  else [line]

def emitLines : Nat → List UInt8 → List UInt8 × List (List UInt8)
  | 0, leftover => (leftover,[])
  | fuel + 1, leftover =>
      match leftover.findIdx? (fun byte => byte = kNewline) with
      | none => (leftover,[])
      | some pos =>
          let line := stripReturn (leftover.take pos)
          let later := emitLines fuel (leftover.drop (pos + 1))
          (later.1,emitLine line ++ later.2)

def dispatchChunk (leftover data : List UInt8) : List UInt8 × List (List UInt8) :=
  emitLines (leftover ++ data).length (leftover ++ data)

def dispatchChunks (leftover : List UInt8) : List (List UInt8) → List UInt8 × List (List UInt8)
  | [] => (leftover,[])
  | data :: chunks =>
      let dispatched := dispatchChunk leftover data
      let later := dispatchChunks dispatched.1 chunks
      (later.1,dispatched.2 ++ later.2)

-- A call of `PostStream`: the chunks it hands on before it returns or throws.
structure PostStream where
  chunks : List (List UInt8)
  returns : Bool

namespace PostStream

def bytes (request : PostStream) : List UInt8 := request.chunks.flatten

end PostStream

-- One round of `WorkerLoop`.
def serveRequest (leftover : List UInt8) (request : PostStream) : List UInt8 × List (List UInt8) :=
  let dispatched := dispatchChunks leftover request.chunks
  if request.returns then
    if dispatched.1.isEmpty then dispatched else ([],dispatched.2 ++ emitLine dispatched.1)
  else dispatched

def leftoverAfter (requests : List PostStream) : List UInt8 :=
  requests.foldl (fun leftover request => (serveRequest leftover request).1) []

-- What the requests that failed since the last one that completed had received.
def failedBytes (requests : List PostStream) : List UInt8 :=
  requests.foldl (fun failed request => if request.returns then [] else failed ++ request.bytes) []

-- The messages of a response that a transport receives first, in one chunk.
def messagesOf (bytes : List UInt8) : List (List UInt8) := (serveRequest [] ⟨[bytes],true⟩).2

def emitAll (lines : List (List UInt8)) : List (List UInt8) :=
  lines.flatMap (fun line => emitLine (stripReturn line))

variable {leftover data bytes : List UInt8} {chunks : List (List UInt8)} {requests : List PostStream}

theorem emitLines_frames (fuel : Nat) (leftover : List UInt8) : emitLines fuel leftover =
    (((lineFraming kNewline).framesFrom fuel leftover).2,
      emitAll ((lineFraming kNewline).framesFrom fuel leftover).1) := by
  induction fuel generalizing leftover with
  | zero => rfl
  | succ fuel ih =>
      rw [emitLines,framesFrom]
      have hnext : (lineFraming kNewline).next leftover = Lines.nextLine kNewline leftover := rfl
      rw [hnext,Lines.nextLine]
      cases leftover.findIdx? (fun byte => byte = kNewline) with
      | none => rfl
      | some pos =>
          dsimp only
          rw [ih,emitAll,emitAll,List.flatMap_cons]

theorem dispatchChunk_frames (leftover data : List UInt8) : dispatchChunk leftover data =
    (((lineFraming kNewline).frames (leftover ++ data)).2,
      emitAll ((lineFraming kNewline).frames (leftover ++ data)).1) :=
  emitLines_frames (leftover ++ data).length (leftover ++ data)

theorem dispatchChunks_frames (hl : kNewline ∉ leftover) (chunks : List (List UInt8)) :
    dispatchChunks leftover chunks =
      (((lineFraming kNewline).frames (leftover ++ chunks.flatten)).2,
        emitAll ((lineFraming kNewline).frames (leftover ++ chunks.flatten)).1) := by
  induction chunks generalizing leftover with
  | nil =>
      rw [List.flatten_nil,List.append_nil,frames_open hl]
      rfl
  | cons data chunks ih =>
      have hleft := left_not_mem kNewline (leftover ++ data)
      rw [List.flatten_cons,← List.append_assoc,frames_append,dispatchChunks,dispatchChunk_frames]
      dsimp only
      rw [ih hleft,emitAll,emitAll,emitAll,List.flatMap_append]

theorem serveRequest_returns (hl : kNewline ∉ leftover) (chunks : List (List UInt8)) :
    serveRequest leftover ⟨chunks,true⟩ =
      ([],emitAll ((lineFraming kNewline).frames (leftover ++ chunks.flatten)).1 ++
        emitLine ((lineFraming kNewline).frames (leftover ++ chunks.flatten)).2) := by
  rw [serveRequest,dispatchChunks_frames hl]
  dsimp only
  rw [if_pos rfl]
  split
  · next hnone =>
      rw [List.isEmpty_iff.mp hnone]
      exact congrArg (Prod.mk []) (List.append_nil _).symm
  · rfl

theorem serveRequest_fails (hl : kNewline ∉ leftover) (chunks : List (List UInt8)) :
    (serveRequest leftover ⟨chunks,false⟩).1 =
      ((lineFraming kNewline).frames (leftover ++ chunks.flatten)).2 := by
  rw [serveRequest,dispatchChunks_frames hl]
  rfl

-- The buffer holds the open line of what the failed requests received, after every request.
theorem leftoverAfter_eq (requests : List PostStream) :
    leftoverAfter requests = ((lineFraming kNewline).frames (failedBytes requests)).2 := by
  induction requests using List.reverseRecOn with
  | nil => exact congrArg Prod.snd (frames_open (List.not_mem_nil)).symm
  | append_singleton requests request ih =>
      have hleft := left_not_mem kNewline (failedBytes requests)
      have hafter : leftoverAfter (requests ++ [request]) =
          (serveRequest ((lineFraming kNewline).frames (failedBytes requests)).2 request).1 := by
        rw [← ih,leftoverAfter,List.foldl_append]
        rfl
      have hfailed : failedBytes (requests ++ [request]) =
          if request.returns then [] else failedBytes requests ++ request.bytes := by
        rw [failedBytes,List.foldl_append]
        rfl
      obtain ⟨chunks,returns⟩ := request
      rw [hafter,hfailed]
      cases returns with
      | true =>
          rw [serveRequest_returns hleft]
          exact congrArg Prod.snd (frames_open List.not_mem_nil).symm
      | false =>
          rw [serveRequest_fails hleft,if_neg Bool.false_ne_true]
          exact (congrArg Prod.snd (frames_append (lineFraming kNewline) (failedBytes requests) _)).symm

theorem leftoverAfter_not_mem (requests : List PostStream) : kNewline ∉ leftoverAfter requests := by
  rw [leftoverAfter_eq]
  exact left_not_mem kNewline (failedBytes requests)

theorem serveRequest_fresh (chunks : List (List UInt8)) :
    (serveRequest [] ⟨chunks,true⟩).2 = messagesOf chunks.flatten := by
  rw [messagesOf,serveRequest_returns List.not_mem_nil,serveRequest_returns List.not_mem_nil,
    List.flatten_singleton]

theorem kDataField_eq : kDataField = [0x64,0x61,0x74,0x61,0x3A] := by decide

-- A response that a leftover in front of it always changes.
def kProbe : List UInt8 := kDataField ++ [0x62]

theorem probe_prefix (hne : leftover ≠ []) (hp : kDataField.isPrefixOf (leftover ++ kProbe)) :
    kDataField.length ≤ leftover.length := by
  rw [kProbe,kDataField_eq] at hp
  match leftover, hne with
  | [a], _ => simp at hp
  | [a,b], _ => simp at hp
  | [a,b,c], _ => simp at hp
  | [a,b,c,d], _ => simp at hp
  | a :: b :: c :: d :: e :: later, _ => exact Nat.le_add_left 5 later.length

theorem length_dataPayload (line : List UInt8) : line.length ≤ (dataPayload line).length + 6 := by
  have hdrop : (line.drop kDataField.length).length = line.length - 5 := by
    rw [List.length_drop,kDataField_eq]
    rfl
  unfold dataPayload
  dsimp only
  split
  · rw [List.length_tail]
    omega
  · omega

theorem length_of_mem_emitLine {line payload : List UInt8} (h : payload ∈ emitLine line) :
    line.length ≤ payload.length + if kDataField.isPrefixOf line then 6 else 0 := by
  unfold emitLine at h
  dsimp only at h
  split at h
  · cases h
  · split at h
    · next hp =>
        rw [if_pos hp]
        split at h
        · cases h
        · split at h
          · cases h
          · rw [List.mem_singleton.mp h]
            exact length_dataPayload line
    · next hp =>
        rw [if_neg hp]
        split at h
        · cases h
        · rw [List.mem_singleton.mp h,Nat.add_zero]

theorem emitLine_probe (hne : leftover ≠ []) : emitLine (leftover ++ kProbe) ≠ [[0x62]] := by
  intro h
  have hlen := length_of_mem_emitLine (h ▸ List.mem_singleton_self [0x62])
  have hpos := List.length_pos_iff.mpr hne
  have hprobe : kProbe.length = 6 := by decide
  rw [List.length_append,hprobe,List.length_singleton] at hlen
  split at hlen
  · next hp =>
      have hlong := probe_prefix hne hp
      rw [kDataField_eq] at hlong
      simp only [List.length_cons,List.length_nil] at hlong
      omega
  · omega

theorem messagesOf_probe : messagesOf kProbe = [[0x62]] := by decide

theorem serveRequest_alone_iff (hl : kNewline ∉ leftover) :
    (∀ chunks, (serveRequest leftover ⟨chunks,true⟩).2 = messagesOf chunks.flatten) ↔
      leftover = [] := by
  constructor
  · intro h
    by_contra hne
    have hopen : kNewline ∉ leftover ++ kProbe := by
      rw [List.mem_append]
      rintro (hmem | hmem)
      · exact hl hmem
      · exact absurd hmem (by decide)
    have hprobe := h [kProbe]
    rw [serveRequest_returns hl,List.flatten_singleton,frames_open hopen,messagesOf_probe] at hprobe
    exact emitLine_probe hne hprobe
  · rintro rfl chunks
    exact serveRequest_fresh chunks

theorem responses_alone_iff (requests : List PostStream) :
    (∀ chunks, (serveRequest (leftoverAfter requests) ⟨chunks,true⟩).2 = messagesOf chunks.flatten) ↔
      Closed kNewline (failedBytes requests) := by
  rw [serveRequest_alone_iff (leftoverAfter_not_mem requests),leftoverAfter_eq,left_eq_nil_iff]

def kCut : List UInt8 := [0x7B]
def kReply : List UInt8 := [0x7B,0x7D]

theorem failed_request_leaks :
    (serveRequest (leftoverAfter [⟨[kCut],false⟩]) ⟨[kReply],true⟩).2 = [kCut ++ kReply] ∧
      messagesOf kReply = [kReply] := by decide

end HttpTransport

end PuCli
