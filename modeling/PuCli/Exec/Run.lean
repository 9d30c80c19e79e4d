import PuCli.Core.Utf8

namespace PuCli

def kNewline : UInt8 := 0x0A

namespace Exec

inductive Keep where
  | kHead
  | kEnd
  deriving DecidableEq

structure Extent where
  lines : Nat := 0
  bytes : Nat := 0
  retained : Nat := 0
  fromEnd : Bool := false
  deriving DecidableEq

def Extent.truncated (e : Extent) : Bool := e.retained < e.lines

def Extent.skipped (e : Extent) : Nat :=
  if e.fromEnd ∧ e.retained < e.lines then e.lines - e.retained else 0

structure Verdict where
  command : String
  ok : Bool := false
  exitCode : Int32 := 0
  error : List UInt8 := []
  stopped : Bool := false

structure Captured where
  text : List UInt8
  extent : Extent
  deriving DecidableEq

def countLines (text : List UInt8) : Nat :=
  if text.isEmpty then 0
  else if text.getLast? = some kNewline then text.count kNewline else text.count kNewline + 1

structure Capture where
  maxBytes : Nat
  keep : Keep
  extent : Extent := {}
  text : List UInt8 := []
  newlines : Nat := 0
  last : UInt8 := kNewline
  truncated : Bool := false

namespace Capture

def dropOnce (c : Capture) : Capture :=
  let cut := c.text.length - c.maxBytes
  let drop := match (c.text.drop cut).findIdx? (fun byte => byte = kNewline) with
    | none => cut
    | some newline => cut + newline + 1
  { c with text := c.text.drop drop, truncated := true }

def dropWhileOver : Nat → Capture → Capture
  | 0, c => c
  | fuel + 1, c => if c.maxBytes < c.text.length then dropWhileOver fuel c.dropOnce else c

def dropToBudget (c : Capture) : Capture := dropWhileOver c.text.length c

def count (c : Capture) (data : List UInt8) : Capture :=
  { c with
    extent := { c.extent with bytes := c.extent.bytes + data.length }
    newlines := c.newlines + data.count kNewline
    last := data.getLast?.getD c.last }

def appendHead (c : Capture) (data : List UInt8) : Capture :=
  let room := if c.text.length < c.maxBytes then c.maxBytes - c.text.length else 0
  let kept := min data.length room
  { c with text := c.text ++ data.take kept, truncated := c.truncated || kept < data.length }

def appendEnd (c : Capture) (data : List UInt8) : Capture :=
  let c := { c with text := c.text ++ data }
  if c.maxBytes * 5 < c.text.length * 4 then c.dropToBudget else c

def append (c : Capture) (data : List UInt8) : Capture :=
  if data.isEmpty then c
  else
    let c := c.count data
    if c.maxBytes = 0 then { c with text := c.text ++ data }
    else match c.keep with
      | .kHead => c.appendHead data
      | .kEnd => c.appendEnd data

def popPartial : Nat → List UInt8 → List UInt8
  | 0, text => text
  | fuel + 1, text =>
      if ¬ text.isEmpty ∧ Utf8.endsWithPartialSequence text then popPartial fuel text.dropLast
      else text

def rfindNewline (text : List UInt8) : Option Nat :=
  (text.reverse.findIdx? (fun byte => byte = kNewline)).map (fun i => text.length - 1 - i)

def trimmed (text : List UInt8) : List UInt8 :=
  let text := popPartial text.length text
  match rfindNewline text with
  | none => text
  | some newline => text.take (newline + 1)

def take (c : Capture) : Captured :=
  let c := { c with
    extent := { c.extent with
      lines := c.newlines + if 0 < c.extent.bytes ∧ c.last ≠ kNewline then 1 else 0
      fromEnd := decide (c.keep = Keep.kEnd) } }
  let c := if c.keep = .kHead ∧ c.truncated then { c with text := trimmed c.text } else c
  let c := if c.keep = .kEnd ∧ c.truncated then c.dropToBudget else c
  ⟨c.text, { c.extent with retained := countLines c.text }⟩

end Capture

def capture (maxBytes : Nat) (keep : Keep) (chunks : List (List UInt8)) : Captured :=
  (chunks.foldl Capture.append { maxBytes := maxBytes, keep := keep }).take

end Exec

end PuCli
