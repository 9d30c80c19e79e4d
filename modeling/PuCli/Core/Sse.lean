import PuCli.Core.Utf8Cut
import PuCli.Exec.Run
import PuCli.Library.Framing

namespace PuCli

namespace Sse

def kCarriageReturn : UInt8 := 0x0D
def kColon : UInt8 := 0x3A
def kSpace : UInt8 := 0x20

def kData : List UInt8 := Utf8.bytesOf "data"
def kEvent : List UInt8 := Utf8.bytesOf "event"
def kId : List UInt8 := Utf8.bytesOf "id"
def kRetry : List UInt8 := Utf8.bytesOf "retry"
def kDone : List UInt8 := Utf8.bytesOf "[DONE]"

structure SseEvent where
  event : List UInt8 := []
  id : List UInt8 := []
  data : List UInt8 := []
  deriving DecidableEq

-- What reaches the caller: `on_event_` and `on_retry_`, in the order they are called.
inductive Report where
  | event (e : SseEvent)
  | retry (milliseconds : Int)
  deriving DecidableEq

-- The parser's fields other than the bytes it holds back.
structure Frame where
  bareLinesAreEvents : Bool := false
  hasRetry : Bool := false
  pending : SseEvent := {}
  hasData : Bool := false
  deriving DecidableEq

structure SseParser (σ : Type) where
  buffer : List UInt8 := []
  state : σ

def splitField (line : List UInt8) : List UInt8 × List UInt8 :=
  match line.findIdx? (fun byte => byte = kColon) with
  | none => (line,[])
  | some colon =>
      let value := line.drop (colon + 1)
      (line.take colon,if value.head? = some kSpace then value.tail else value)

def startsAField (line : List UInt8) : Bool :=
  [kData,kEvent,kId,kRetry].any (fun field =>
    field.length < line.length ∧ line.take field.length = field ∧ (line)[field.length]? = some kColon)

def isSpace (byte : UInt8) : Bool := byte = kSpace ∨ (0x09 ≤ byte ∧ byte ≤ 0x0D)

def isDigit (byte : UInt8) : Bool := 0x30 ≤ byte ∧ byte ≤ 0x39

-- `std::stoi`: blanks and a sign in front, what stands behind the digits left unread.
def stoi (value : List UInt8) : Option Int :=
  let text := value.dropWhile isSpace
  let negative := text.head? = some 0x2D
  let text := if negative ∨ text.head? = some 0x2B then text.tail else text
  let digits := text.takeWhile isDigit
  if digits.isEmpty then none
  else
    let magnitude : Nat := digits.foldl (fun number digit => number * 10 + (digit.toNat - 0x30)) 0
    let number : Int := if negative then -(magnitude : Int) else magnitude
    if number < -2147483648 ∨ 2147483647 < number then none else some number

variable (parses : List UInt8 → Bool)

-- `parses` is boost's parser on a whole text.
def parsesAsOneValue (data : List UInt8) : Bool :=
  if data.isEmpty then false else if data = kDone then true else parses data

def pendingIsComplete (s : Frame) : Bool := parsesAsOneValue parses s.pending.data

def dispatch (s : Frame) : Frame × List Report :=
  ({ s with hasData := false, pending := {} },if s.hasData then [.event s.pending] else [])

def addData (s : Frame) (value : List UInt8) : Frame :=
  { s with
    pending := { s.pending with
      data := (if s.hasData then s.pending.data ++ [kNewline] else s.pending.data) ++ value }
    hasData := true }

def handleField (s : Frame) (field value : List UInt8) : Frame × List Report :=
  if field = kData then
    let started := if s.hasData ∧ pendingIsComplete parses s then dispatch s else (s,[])
    (addData started.1 value,started.2)
  else if field = kEvent then ({ s with pending := { s.pending with event := value } },[])
  else if field = kId then ({ s with pending := { s.pending with id := value } },[])
  else if field = kRetry then
    match stoi value with
    | some milliseconds =>
        (s,if s.hasRetry ∧ 0 ≤ milliseconds then [.retry milliseconds] else [])
    | none => (s,[])
  else (s,[])

def handleLine (s : Frame) (line : List UInt8) : Frame × List Report :=
  if line.isEmpty then dispatch s
  else if line.head? = some kColon then (s,[])
  else if s.bareLinesAreEvents ∧ ¬ startsAField line then (s,[.event { data := line }])
  else handleField parses s (splitField line).1 (splitField line).2

def stripReturn (line : List UInt8) : List UInt8 :=
  if line.getLast? = some kCarriageReturn then line.dropLast else line

-- The line at the front of the buffer, unless it has to wait.
def nextLine (buffer : List UInt8) : Option (List UInt8 × List UInt8) :=
  match buffer.findIdx? (fun byte => byte = kNewline) with
  | none => none
  | some newline =>
      let line := stripReturn (buffer.take newline)
      if Utf8.endsWithPartialSequence line then none else some (line,buffer.drop (newline + 1))

variable {σ ρ : Type} (handle : σ → List UInt8 → σ × List ρ)

def feedLines : Nat → SseParser σ → SseParser σ × List ρ
  | 0, p => (p,[])
  | fuel + 1, p =>
      match nextLine p.buffer with
      | none => (p,[])
      | some (line,rest) =>
          let handled := handle p.state line
          let later := feedLines fuel ⟨rest,handled.1⟩
          (later.1,handled.2 ++ later.2)

def feed (p : SseParser σ) (data : List UInt8) : SseParser σ × List ρ :=
  feedLines handle (p.buffer ++ data).length { p with buffer := p.buffer ++ data }

def feedAll (p : SseParser σ) : List (List UInt8) → SseParser σ × List ρ
  | [] => (p,[])
  | data :: chunks =>
      let fed := feed handle p data
      let later := feedAll fed.1 chunks
      (later.1,fed.2 ++ later.2)

-- `Finish` up to its call of `Dispatch`.
def closeLine (p : SseParser σ) : σ × List ρ :=
  if p.buffer.isEmpty then (p.state,[])
  else
    let line := stripReturn p.buffer
    if Utf8.endsWithPartialSequence line then (p.state,[]) else handle p.state line

def finish (p : SseParser Frame) : List Report :=
  let closed := closeLine (handleLine parses) p
  closed.2 ++ (dispatch closed.1).2

def parse (s : Frame) (chunks : List (List UInt8)) : List Report :=
  let fed := feedAll (handleLine parses) { state := s } chunks
  fed.2 ++ finish parses fed.1

end Sse

end PuCli
