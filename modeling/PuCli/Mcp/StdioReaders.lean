import PuCli.Exec.Run
import PuCli.Library.LineFraming

namespace PuCli

namespace StdioTransport

open Framing Lines

-- What one pass of `ReaderLoop` meets once `running_` has let it in: `poll`, then `read`.
inductive PosixRead where
  | pollInterrupted
  | pollFailed
  | pollTimedOut
  | readInterrupted
  | readFailed
  | read (bytes : List UInt8)

inductive WindowsRead where
  | failed (error : Nat)
  | read (bytes : List UInt8)

-- `on_message` is called on lines that are not empty; the text conversion is the identity.
def onMessage (line : List UInt8) : List (List UInt8) := if line.isEmpty then [] else [line]

-- The loop over the newlines of one chunk, which both readers write out: what stays in
-- `leftover`, and the calls of `on_message`.
def takeLines : Nat → List UInt8 → List UInt8 → List UInt8 × List (List UInt8)
  | 0, leftover, chunk => (leftover ++ chunk,[])
  | fuel + 1, leftover, chunk =>
      match chunk.findIdx? (fun byte => byte = kNewline) with
      | none => (leftover ++ chunk,[])
      | some pos =>
          let line := leftover ++ chunk.take pos
          let later := takeLines fuel [] (chunk.drop (pos + 1))
          (later.1,onMessage line ++ later.2)

def readChunk (leftover chunk : List UInt8) : List UInt8 × List (List UInt8) :=
  takeLines chunk.length leftover chunk

-- The list ends where `running_` is found false.
def readerLoop (leftover : List UInt8) : List PosixRead → List (List UInt8)
  | [] => []
  | .pollInterrupted :: later => readerLoop leftover later
  | .pollFailed :: _ => []
  | .pollTimedOut :: later => readerLoop leftover later
  | .readInterrupted :: later => readerLoop leftover later
  | .readFailed :: _ => []
  | .read chunk :: later =>
      if chunk.isEmpty then []
      else
        let taken := readChunk leftover chunk
        taken.2 ++ readerLoop taken.1 later

def readerThreadProc (leftover : List UInt8) : List WindowsRead → List (List UInt8)
  | [] => onMessage leftover
  | .failed _ :: _ => onMessage leftover
  | .read chunk :: later =>
      if chunk.isEmpty then onMessage leftover
      else
        let taken := readChunk leftover chunk
        taken.2 ++ readerThreadProc taken.1 later

-- Reads over a stream that ends where the server closes its output.
inductive PosixReads : List PosixRead → List UInt8 → Prop
  | closed : PosixReads [.read []] []
  | pollInterrupted {reads stream} (later : PosixReads reads stream) :
      PosixReads (.pollInterrupted :: reads) stream
  | pollTimedOut {reads stream} (later : PosixReads reads stream) :
      PosixReads (.pollTimedOut :: reads) stream
  | readInterrupted {reads stream} (later : PosixReads reads stream) :
      PosixReads (.readInterrupted :: reads) stream
  | chunk {chunk reads stream} (hne : chunk ≠ []) (later : PosixReads reads stream) :
      PosixReads (.read chunk :: reads) (chunk ++ stream)

def kErrorBrokenPipe : Nat := 109
def kErrorNoData : Nat := 232

inductive WindowsReads : List WindowsRead → List UInt8 → Prop
  | empty : WindowsReads [.read []] []
  | brokenPipe : WindowsReads [.failed kErrorBrokenPipe] []
  | noData : WindowsReads [.failed kErrorNoData] []
  | chunk {chunk reads stream} (hne : chunk ≠ []) (later : WindowsReads reads stream) :
      WindowsReads (.read chunk :: reads) (chunk ++ stream)

variable {leftover chunk stream : List UInt8} {posix : List PosixRead} {windows : List WindowsRead}

theorem onMessage_ne_nil {line : List UInt8} (h : line ≠ []) : onMessage line = [line] := by
  rw [onMessage,if_neg (by simpa using h)]

-- What `leftover` holds has no newline, so the next newline of the chunk is the next of both.
theorem takeLines_frames (fuel : Nat) (hl : kNewline ∉ leftover) (hf : chunk.length ≤ fuel) :
    takeLines fuel leftover chunk =
      (((lineFraming kNewline).frames (leftover ++ chunk)).2,
        ((lineFraming kNewline).frames (leftover ++ chunk)).1.flatMap onMessage) := by
  induction fuel generalizing leftover chunk with
  | zero =>
      obtain rfl := List.length_eq_zero_iff.mp (Nat.le_zero.mp hf)
      rw [List.append_nil,frames_open hl,takeLines,List.append_nil]
      rfl
  | succ fuel ih =>
      rw [takeLines]
      by_cases hmem : kNewline ∈ chunk
      · obtain ⟨raw,rest,rfl,hraw⟩ := List.eq_append_cons_of_mem hmem
        have hline : kNewline ∉ leftover ++ raw := by simp [hl,hraw]
        have hshort : rest.length ≤ fuel := by
          rw [List.length_append,List.length_cons] at hf
          omega
        rw [findIdx?_first hraw]
        dsimp only
        rw [List.take_left,List.append_cons raw,List.drop_left' (by simp),
          ih List.not_mem_nil hshort,List.nil_append,← List.append_cons,← List.append_assoc,
          frames_closed hline,List.flatMap_cons]
      · rw [findIdx?_absent hmem,frames_open (by simp [hl,hmem])]
        rfl

theorem readChunk_frames (hl : kNewline ∉ leftover) (chunk : List UInt8) : readChunk leftover chunk =
    (((lineFraming kNewline).frames (leftover ++ chunk)).2,
      ((lineFraming kNewline).frames (leftover ++ chunk)).1.flatMap onMessage) :=
  takeLines_frames chunk.length hl (Nat.le_refl _)

theorem readChunk_not_mem (hl : kNewline ∉ leftover) (chunk : List UInt8) :
    kNewline ∉ (readChunk leftover chunk).1 := by
  rw [readChunk_frames hl]
  exact left_not_mem kNewline (leftover ++ chunk)

theorem frames_readChunk (hl : kNewline ∉ leftover) (chunk stream : List UInt8) :
    ((lineFraming kNewline).frames (leftover ++ (chunk ++ stream))).1.flatMap onMessage =
        (readChunk leftover chunk).2 ++
          ((lineFraming kNewline).frames ((readChunk leftover chunk).1 ++ stream)).1.flatMap onMessage ∧
      ((lineFraming kNewline).frames (leftover ++ (chunk ++ stream))).2 =
        ((lineFraming kNewline).frames ((readChunk leftover chunk).1 ++ stream)).2 := by
  rw [← List.append_assoc,frames_append,readChunk_frames hl,List.flatMap_append]
  exact ⟨rfl,rfl⟩

theorem readerLoop_reads (h : PosixReads posix stream) (hl : kNewline ∉ leftover) :
    readerLoop leftover posix =
      ((lineFraming kNewline).frames (leftover ++ stream)).1.flatMap onMessage := by
  induction h generalizing leftover with
  | closed =>
      rw [List.append_nil,frames_open hl]
      rfl
  | pollInterrupted _ ih => exact ih hl
  | pollTimedOut _ ih => exact ih hl
  | readInterrupted _ ih => exact ih hl
  | @chunk chunk reads stream hne _ ih =>
      rw [readerLoop,if_neg (by simpa using hne),(frames_readChunk hl chunk stream).1]
      dsimp only
      rw [ih (readChunk_not_mem hl chunk)]

theorem readerThreadProc_reads (h : WindowsReads windows stream) (hl : kNewline ∉ leftover) :
    readerThreadProc leftover windows =
      ((lineFraming kNewline).frames (leftover ++ stream)).1.flatMap onMessage ++
        onMessage ((lineFraming kNewline).frames (leftover ++ stream)).2 := by
  induction h generalizing leftover with
  | empty | brokenPipe | noData =>
      rw [List.append_nil,frames_open hl]
      rfl
  | @chunk chunk reads stream hne _ ih =>
      rw [readerThreadProc,if_neg (by simpa using hne),(frames_readChunk hl chunk stream).1,
        (frames_readChunk hl chunk stream).2,List.append_assoc]
      dsimp only
      rw [ih (readChunk_not_mem hl chunk)]

theorem readerThreadProc_lines (h : WindowsReads windows stream) :
    readerThreadProc [] windows = (split kNewline stream).flatMap onMessage := by
  rw [readerThreadProc_reads h List.not_mem_nil,List.nil_append,split_frames,List.flatMap_append]
  split
  · next hnil =>
      rw [hnil]
      rfl
  · rw [List.flatMap_singleton]

-- The POSIX reader stops short of a last line that no newline ends, and delivers all before it.
theorem readerThreadProc_eq (hp : PosixReads posix stream) (hw : WindowsReads windows stream) :
    readerThreadProc [] windows =
      readerLoop [] posix ++ onMessage ((lineFraming kNewline).frames stream).2 := by
  rw [readerThreadProc_reads hw List.not_mem_nil,readerLoop_reads hp List.not_mem_nil,List.nil_append]

theorem readers_agree_iff (hp : PosixReads posix stream) (hw : WindowsReads windows stream) :
    readerLoop [] posix = readerThreadProc [] windows ↔ Closed kNewline stream := by
  rw [readerThreadProc_eq hp hw,← left_eq_nil_iff]
  constructor
  · intro h
    have hnone := List.self_eq_append_right.mp h
    by_contra hne
    rw [onMessage_ne_nil hne] at hnone
    cases hnone
  · intro h
    rw [h]
    exact (List.append_nil _).symm

def kReply : List UInt8 := [0x7B,0x7D]

theorem unended_line_differs :
    PosixReads [.read kReply,.read []] kReply ∧
      WindowsReads [.read kReply,.failed kErrorBrokenPipe] kReply ∧
      readerLoop [] [.read kReply,.read []] = [] ∧
      readerThreadProc [] [.read kReply,.failed kErrorBrokenPipe] = [kReply] :=
  ⟨.chunk (by decide) .closed,.chunk (by decide) .brokenPipe,by decide,by decide⟩

theorem ended_line_agrees :
    (readerLoop [] [.pollTimedOut,.read kReply,.read [kNewline],.read []] =
      readerThreadProc [] [.read (kReply ++ [kNewline]),.read []]) ↔
      Closed kNewline (kReply ++ [kNewline]) :=
  readers_agree_iff (.pollTimedOut (.chunk (by decide) (.chunk (by decide) .closed)))
    (.chunk (by decide) .empty)

end StdioTransport

end PuCli
