import Mathlib.Logic.Function.Basic
import PuCli.Core.Reread

namespace PuCli

open Json

structure ServeRecord where
  directory : String
  bind : String
  port : UInt16 := 0
  pid : Int32 := 0
  started : String
  deriving DecidableEq

namespace ServeRegistry

def kRecordsKey : String := "servers"

def recordFromJson (item : Json) : ServeRecord where
  directory := valueOrDefault item "directory" ""
  bind := valueOrDefault item "bind" ""
  port := UInt16.ofNat ((valueOrDefault item "port" (0 : Int32)).toInt % 65536).toNat
  pid := valueOrDefault item "pid" 0
  started := valueOrDefault item "started" ""

def recordToJson (record : ServeRecord) : Json :=
  .object [("directory", .string record.directory), ("bind", .string record.bind),
    ("port", .uint64 record.port.toNat), ("pid", .int64 record.pid.toInt),
    ("started", .string record.started)]

-- A file is what parsing its text gives: nothing where there is none or it is not JSON.
def readRecords (file : Option Json) : List Json :=
  match file with
  | none => []
  | some parsed =>
      match parsed.get? kRecordsKey with
      | some (.array records) => records
      | _ => []

def document (records : List Json) : Json := .object [(kRecordsKey, .array records)]

def recordsIn (file : Option Json) : List ServeRecord := (readRecords file).map recordFromJson

theorem recordFromJson_reread (d : Doubles) (item : Json) :
    recordFromJson (item.reread d) = recordFromJson item := by
  simp only [recordFromJson,valueOrDefault_reread]

theorem valueTo_port (port : UInt16) :
    (FromJson.valueTo (Json.uint64 port.toNat) : Option Int32) =
      some (Int32.ofInt port.toNat) := by
  have hlt := port.toNat_lt
  have hnumber : (Json.uint64 port.toNat).toNumber = some (.finite ((port.toNat : Int) : Rat)) :=
    congrArg (some ∘ Double.finite) (Rat.intCast_natCast port.toNat).symm
  have hrange : -2147483648 ≤ (port.toNat : Int) ∧ (port.toNat : Int) ≤ 2147483647 := by omega
  simp only [FromJson.valueTo,toInt,hnumber,Rat.den_intCast,Rat.num_intCast,hrange,and_self,if_true,
    Option.map_some]

theorem recordFromJson_recordToJson (record : ServeRecord) :
    recordFromJson (recordToJson record) = record := by
  have hlt := record.port.toNat_lt
  have hport : (Int32.ofInt record.port.toNat).toInt = record.port.toNat :=
    Int32.toInt_ofInt_of_le (by omega) (by omega)
  have hmod : ((record.port.toNat : Int) % 65536).toNat = record.port.toNat := by omega
  obtain ⟨directory,bind,port,pid,started⟩ := record
  simp [recordFromJson,recordToJson,valueOrDefault,valueTo_port,hport,hmod]

theorem recordsIn_document (records : List Json) :
    recordsIn (some ((document records).reread .plain)) = records.map recordFromJson := by
  simp [recordsIn,readRecords,document,kRecordsKey,recordFromJson_reread,Function.comp_def]

inductive Op where
  | register (record : ServeRecord)
  | unregister (pid : Int32)
  | live

inductive Phase where
  | waiting
  | entered
  | sifting (stored : Nat) (left kept : List Json)
  | written
  | leaving

structure Task where
  process : Int32
  op : Op
  phase : Phase := .waiting
  held : Bool := false

def Task.inside (task : Task) : Bool :=
  match task.phase with
  | .waiting => false
  | _ => true

abbrev TaskId := Nat

structure World where
  folder : Bool
  file : Option Json
  temps : Int32 → Option Json := fun _ => none
  processes : Int32 → Option String
  holder : Option TaskId := none
  tasks : TaskId → Option Task := fun _ => none
  -- The servers that have registered, still run and have not unregistered.
  listed : Int32 → Option ServeRecord := fun _ => none

inductive Move where
  | start (pid : Int32) (token : String)
  | die (pid : Int32)
  | call (t : TaskId) (pid : Int32) (op : Op)
  | advance (t : TaskId)

namespace World

def processRunning (w : World) (pid : Int32) : Bool :=
  if pid ≤ 0 then false else (w.processes pid).isSome

def processStartToken (w : World) (pid : Int32) : String :=
  if pid ≤ 0 then "" else (w.processes pid).getD ""

def stillRunning (w : World) (record : ServeRecord) : Bool :=
  let now := w.processStartToken record.pid
  if ¬ w.processRunning record.pid then false
  else if record.started = "" ∨ now = "" then true
  else record.started = now

def keeps (w : World) (item : Json) : Op → Bool
  | .register record =>
      (recordFromJson item).pid ≠ record.pid && w.processRunning (recordFromJson item).pid
  | .unregister pid => (recordFromJson item).pid ≠ pid
  | .live => w.stillRunning (recordFromJson item)

def update (w : World) (t : TaskId) (task : Task) : World :=
  { w with tasks := Function.update w.tasks t (some task) }

-- A folder that is not there yet has no lock file to open, and the caller goes on without one.
def lock (w : World) (t : TaskId) (task : Task) : World :=
  if ¬ w.folder then w.update t { task with phase := .entered, held := false }
  else match w.holder with
    | some _ => w
    | none => { w.update t { task with phase := .entered, held := true } with holder := some t }

def read (w : World) (t : TaskId) (task : Task) : World :=
  w.update t { task with
    phase := .sifting (readRecords w.file).length (readRecords w.file) [] }

def output (kept : List Json) : Op → List Json
  | .register record => kept ++ [recordToJson record]
  | .unregister _ => kept
  | .live => kept

def writeRecords (w : World) (t : TaskId) (task : Task) (records : List Json) : World :=
  { w.update t { task with phase := .written } with
    folder := true
    temps := Function.update w.temps task.process (some ((document records).reread .plain)) }

def sift (w : World) (t : TaskId) (task : Task) (stored : Nat) (left kept : List Json) : World :=
  match left, task.op with
  | item :: left, op =>
      w.update t { task with
        phase := .sifting stored left (if w.keeps item op then kept ++ [item] else kept) }
  | [], .live =>
      if kept.length = stored then w.update t { task with phase := .leaving }
      else w.writeRecords t task kept
  | [], op => w.writeRecords t task (output kept op)

def settle (listed : Int32 → Option ServeRecord) : Op → Int32 → Option ServeRecord
  | .register record => Function.update listed record.pid (some record)
  | .unregister pid => Function.update listed pid none
  | .live => listed

def rename (w : World) (t : TaskId) (task : Task) : World :=
  { w.update t { task with phase := .leaving } with
    file := (w.temps task.process).or w.file
    temps := Function.update w.temps task.process none
    listed := settle w.listed task.op }

def unlock (w : World) (t : TaskId) (task : Task) : World :=
  { w with
    holder := if task.held then none else w.holder
    tasks := Function.update w.tasks t none }

def advance (w : World) (t : TaskId) : World :=
  match w.tasks t with
  | none => w
  | some task =>
      match task.phase with
      | .waiting => w.lock t task
      | .entered => w.read t task
      | .sifting stored left kept => w.sift t task stored left kept
      | .written => w.rename t task
      | .leaving => w.unlock t task

def ofProcess (w : World) (pid : Int32) (t : TaskId) : Bool :=
  match w.tasks t with
  | none => false
  | some task => task.process = pid

-- The kernel drops the lock of a process that ends.
def die (w : World) (pid : Int32) : World :=
  { w with
    processes := Function.update w.processes pid none
    tasks := fun t => if w.ofProcess pid t then none else w.tasks t
    holder := w.holder.filter (fun t => !w.ofProcess pid t)
    listed := Function.update w.listed pid none }

def step (w : World) : Move → World
  | .start pid token =>
      if 0 < pid ∧ w.processes pid = none then
        { w with processes := Function.update w.processes pid (some token) }
      else w
  | .die pid => w.die pid
  | .call t pid op =>
      if w.tasks t = none ∧ (w.processes pid).isSome then w.update t { process := pid, op := op }
      else w
  | .advance t => w.advance t

end World

end ServeRegistry

end PuCli
