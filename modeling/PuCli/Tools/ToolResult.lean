import PuCli.Paging.Pager
import PuCli.Tools.PeerTool

namespace PuCli

open Json

namespace Tools

def toolResultMembers (success : Bool) (output error : List UInt8) (exitCode : Int32)
    (blocked : Bool) (refusal : Refusal) (extra : List (String × Json)) :
    List (String × Json) :=
  let j := [("success", Json.bool success), ("blocked", .bool blocked),
    ("output", .string (Utf8.sanitizeUtf8 output)), ("error", .string (Utf8.sanitizeUtf8 error)),
    ("exit_code", .int64 exitCode.toInt)]
  let j := if refusal = .nobodyToAsk then assign j "refusal" (.string "nobody_to_ask") else j
  extra.foldl (fun j field => assign j field.1 field.2) j

def makeToolResultJson (text : JsonText) (success : Bool) (output error : List UInt8)
    (exitCode : Int32) (blocked : Bool) (refusal : Refusal) (extra : List (String × Json)) :
    String :=
  text.serialize (.object
    (toolResultMembers success output error exitCode blocked refusal extra))

theorem makeToolResultJson_plain (text : JsonText) (success : Bool) (output error : String)
    (exitCode : Int32) (blocked : Bool) :
    makeToolResultJson text success (Utf8.bytesOf output) (Utf8.bytesOf error) exitCode blocked
      .none [] = PuCli.makeToolResultJson text success output error exitCode.toInt blocked := by
  simp [makeToolResultJson,PuCli.makeToolResultJson,toolResultMembers,Utf8.sanitizeUtf8_bytesOf]

namespace BashTool

def sourceKey (command sandboxRoot : String) : String := command ++ "\x1f" ++ sandboxRoot

def pageResult (text : JsonText) (buffer : Paging.Buffer) (anchor : Paging.Anchor)
    (lines : Nat) : String :=
  let page := Paging.read buffer anchor lines
  makeToolResultJson text buffer.verdict.ok page.text buffer.verdict.error buffer.verdict.exitCode
    false .none (Paging.envelope buffer page)

end BashTool

def pageMembers (buffer : Paging.Buffer) (page : Paging.Page) (success : Bool)
    (output error : List UInt8) (exitCode : Int32) (blocked : Bool) (refusal : Refusal) :
    List (String × Json) :=
  toolResultMembers success output error exitCode blocked refusal (Paging.envelope buffer page)

theorem find_pageMembers (buffer : Paging.Buffer) (page : Paging.Page) (success : Bool)
    (output error : List UInt8) (exitCode : Int32) (blocked : Bool) (refusal : Refusal) :
    find (pageMembers buffer page success output error exitCode blocked refusal) "buffer" =
      some (.object [("id", .string buffer.id), ("source", .string buffer.source),
        ("rank", .uint64 buffer.rank)]) := by
  cases refusal <;> simp [pageMembers,toolResultMembers,Paging.envelope,assign]

end Tools

end PuCli
