import PuCli.Exec.Run
import PuCli.Paging.Origin

namespace PuCli

open Json

namespace Paging

def indexLinesFrom (position : Nat) : List UInt8 → List Nat
  | [] => []
  | [_] => []
  | byte :: next :: rest =>
      (if byte = kNewline then [position + 1] else []) ++ indexLinesFrom (position + 1) (next :: rest)

def indexLines (text : List UInt8) : List Nat :=
  if text.isEmpty then [] else 0 :: indexLinesFrom 0 text

def kHex : List Char := "0123456789abcdef".toList

def hexDigit (value : Nat) : Char := kHex.getD (value % 16) '0'

def fnvStep (hash : UInt64) (byte : UInt8) : UInt64 :=
  (hash ^^^ byte.toUInt64) * 1099511628211

def fnv (key : List UInt8) : UInt64 := key.foldl fnvStep 1469598103934665603

def sourceIdFor (key : String) : String :=
  let hash := (fnv (Utf8.bytesOf key)).toNat
  String.ofList ('s' :: [28, 24, 20, 16, 12, 8, 4, 0].map (fun shift => hexDigit (hash >>> shift)))

structure Buffer where
  id : String
  source : String
  verdict : Exec.Verdict
  text : List UInt8
  extent : Exec.Extent
  rank : Nat := 0

namespace Buffer

def lineStarts (b : Buffer) : List Nat := indexLines b.text

def lines (b : Buffer) : Nat := b.lineStarts.length

def bytes (b : Buffer) : Nat := b.text.length

def line (b : Buffer) (index : Nat) : List UInt8 :=
  let start := b.lineStarts.getD index 0
  let stop := b.lineStarts.getD (index + 1) b.text.length
  let line := (b.text.drop start).take (stop - start)
  if line.getLast? = some kNewline then line.dropLast else line

def origin (b : Buffer) : Origin := ⟨b.source, b.id, b.rank⟩

end Buffer

structure Cursor where
  buffer : String
  line : Nat

def Cursor.toText (c : Cursor) : String := c.buffer ++ ":" ++ toString c.line

inductive Anchor where
  | head
  | tail
  | cursor (c : Cursor)

def parseDigits (digits : List Char) : Option Nat :=
  if digits.all Char.isDigit then
    some (digits.foldl (fun line c => line * 10 + (c.toNat - '0'.toNat)) 0)
  else none

def Cursor.parse (text : String) : Option Cursor :=
  let reversed := text.toList.reverse
  let digits := (reversed.takeWhile (fun c => c ≠ ':')).reverse
  let buffer := (reversed.dropWhile (fun c => c ≠ ':')).drop 1
  if ':' ∉ text.toList ∨ buffer = [] ∨ digits = [] then none
  else if 12 < digits.length then none
  else (parseDigits digits).map (fun line => ⟨String.ofList buffer.reverse, line⟩)

def Anchor.parse (text : String) : Option Anchor :=
  if text = "head" then some .head
  else if text = "tail" then some .tail
  else (Cursor.parse text).map .cursor

structure Page where
  text : List UInt8 := []
  first : Nat := 0
  last : Nat := 0
  earlier : Option Cursor := none
  later : Option Cursor := none

def startOf (retained lines : Nat) : Anchor → Nat
  | .cursor c => c.line
  | .tail => if lines < retained then retained - lines else 0
  | .head => 0

def read (buffer : Buffer) (anchor : Anchor) (lines : Nat) : Page :=
  let retained := buffer.lines
  if retained = 0 ∨ lines = 0 then {}
  else
    let start := startOf retained lines anchor
    if retained ≤ start then {}
    else
      let stop := min retained (start + lines)
      let skipped := buffer.extent.skipped
      { first := start + 1 + skipped
        last := stop + skipped
        text := (List.range' start (stop - start)).flatMap
          (fun index => buffer.line index ++ [kNewline])
        earlier := if 0 < start then some ⟨buffer.id, if lines < start then start - lines else 0⟩
          else none
        later := if stop < retained then some ⟨buffer.id, stop⟩ else none }

def cursorOrNull : Option Cursor → Json
  | none => .null
  | some c => .string c.toText

def envelope (buffer : Buffer) (page : Page) : List (String × Json) :=
  [("page", .object [("first", .uint64 page.first), ("last", .uint64 page.last),
      ("earlier", cursorOrNull page.earlier), ("later", cursorOrNull page.later)]),
    ("buffer", .object [("id", .string buffer.id), ("source", .string buffer.source),
      ("rank", .uint64 buffer.rank)]),
    ("extent", .object [("lines", .uint64 buffer.extent.lines),
      ("retained", .uint64 buffer.extent.retained),
      ("truncated", .bool buffer.extent.truncated)])]

structure Budget where
  pageLines : Nat := 120
  maxLines : Nat := 400
  captureBytes : Nat := 262144
  retainBytes : Nat := 4194304
  retainBuffers : Nat := 8

structure Pager where
  buffers : List Buffer := []
  retainedBytes : Nat := 0
  budget : Budget := {}
  generation : String
  nextOrdinal : Nat := 1
  nextRank : Nat := 1

namespace Pager

def kSizeLimit : Nat := 2 ^ 64

def setBudget (p : Pager) (budget : Budget) : Pager := { p with budget := budget }

def continueRankingFrom (p : Pager) (lastRank : Nat) : Pager :=
  { p with nextRank := max p.nextRank ((lastRank + 1) % kSizeLimit) }

def evict (budget : Budget) (retainedBytes : Nat) : List Buffer → List Buffer × Nat
  | [] => ([], retainedBytes)
  | oldest :: rest =>
      if max 1 budget.retainBuffers < rest.length + 1 ∨
          (budget.retainBytes < retainedBytes ∧ 1 < rest.length + 1) then
        evict budget (retainedBytes - oldest.bytes) rest
      else (oldest :: rest, retainedBytes)

def store (p : Pager) (captured : Exec.Captured) (verdict : Exec.Verdict) (sourceKey : String) :
    Buffer × Pager :=
  let id := "o" ++ p.generation ++ "-" ++ toString p.nextOrdinal
  let source := if sourceKey = "" then "" else sourceIdFor sourceKey
  let buffer : Buffer := ⟨id, source, verdict, captured.text, captured.extent, p.nextRank⟩
  let kept := evict p.budget (p.retainedBytes + buffer.bytes) (p.buffers ++ [buffer])
  (buffer, { p with
    buffers := kept.1
    retainedBytes := kept.2
    nextOrdinal := (p.nextOrdinal + 1) % kSizeLimit
    nextRank := (p.nextRank + 1) % kSizeLimit })

def find (p : Pager) (id : String) : Option Buffer := p.buffers.find? (fun b => b.id = id)

theorem store_buffer_id_ne (p : Pager) (captured : Exec.Captured) (verdict : Exec.Verdict)
    (sourceKey : String) : (p.store captured verdict sourceKey).1.id ≠ "" := by
  intro h
  have := congrArg String.toList h
  simp [store] at this

theorem sourceIdFor_ne (key : String) : sourceIdFor key ≠ "" := by
  intro h
  have := congrArg String.toList h
  simp [sourceIdFor] at this

theorem store_buffer_source_ne (p : Pager) (captured : Exec.Captured) (verdict : Exec.Verdict)
    {sourceKey : String} (h : sourceKey ≠ "") :
    (p.store captured verdict sourceKey).1.source ≠ "" := by
  simp only [store,if_neg h]
  exact sourceIdFor_ne sourceKey

end Pager

end Paging

end PuCli
