import Mathlib.Data.List.Basic
import Mathlib.Order.Basic
import ScxSlam.Lib.Extract

/-!
# ScxSlam.BagIndex.Index

The index of a recorded bag: `ros2_bag_source_epoch.py` writes one file per
topic, with the header timestamp and the ordinal of each message on a line,
and `SourceJobIndex` reads it back to give the messages of a playback their
job identities.

The bag is what the reader of the bag hands out, in order.  A message of a
type without a header has none.
-/

namespace ScxSlam.BagIndex

open Extract

/-! ## timestamps -/

/-- `builtin_interfaces::msg::Time`. -/
structure Time where
  sec : Int
  nanosec : Nat
  deriving DecidableEq, Repr

/-- What a ROS time can be. -/
def Time.Ranged (stamp : Time) : Prop :=
  0 ≤ stamp.sec ∧ stamp.sec < 2 ^ 31 ∧ stamp.nanosec < 1000000000

/-- `stamp.sec * 1_000_000_000 + stamp.nanosec` in Python. -/
def sourceNs (stamp : Time) : Int := stamp.sec * 1000000000 + stamp.nanosec

/-- `source_stamp_ns`. -/
def sourceStampNs (stamp : Time) : Except String Nat :=
  if stamp.sec < 0 ∨ 1000000000 ≤ stamp.nanosec then
    .error "sensor timestamp is outside the ROS Time range"
  else .ok ((stamp.sec.toNat * 1000000000 + stamp.nanosec) % Word.size 64)

/-! ## the writer -/

structure Message where
  topic : String
  header : Option Time
  deriving DecidableEq, Repr

structure Bag where
  topics : List String
  messages : List Message
  deriving DecidableEq, Repr

structure Args where
  topics : List String
  indexDir : Bool
  deriving DecidableEq, Repr

/-- The variables of the loop of `main`. -/
structure Scan where
  wanted : List String
  sourceTimes : List (String × Int) := []
  indexes : String → List Int := fun _ => []

/-- A message is indexed. -/
def Scan.add (e : Scan) (topic : String) (ns : Int) : Scan where
  wanted := e.wanted.filter (· ≠ topic)
  sourceTimes := if e.sourceTimes.any (·.1 = topic) then e.sourceTimes
    else e.sourceTimes ++ [(topic, ns)]
  indexes t := if t = topic then e.indexes t ++ [ns] else e.indexes t

/-- The loop of `main`. -/
def scan (args : Args) : Scan → List Message → Except String Scan
  | e, [] => .ok e
  | e, m :: rest =>
      if e.wanted = [] ∧ args.indexDir = false then .ok e
      else if m.topic ∉ args.topics ∨ args.indexDir = false ∧ m.topic ∉ e.wanted then
        scan args e rest
      else match m.header with
        | none => .error ("topic has no header timestamp: " ++ m.topic)
        | some stamp =>
            if sourceNs stamp ≤ 0 then
              .error ("topic has invalid first header timestamp: " ++ m.topic)
            else if (e.indexes m.topic).getLast?.any (sourceNs stamp ≤ ·) then
              .error ("source timestamps must be strictly increasing for " ++ m.topic)
            else scan args (e.add m.topic (sourceNs stamp)) rest

/-- A set of topics in an error. -/
def listed (topics : List String) : String :=
  ", ".intercalate (topics.mergeSort fun a b => decide (a ≤ b))

/-- A formatted Python integer. -/
def formatted : Int → List Char
  | .ofNat n => decimal n
  | .negSucc n => '-' :: decimal (n + 1)

/-- A line of an index file. -/
def line (stamp : Int) (ordinal : Nat) : List Char :=
  formatted stamp ++ '\t' :: decimal ordinal ++ ['\n']

/-- Lines that count on from an ordinal. -/
def linesFrom (ordinal : Nat) (stamps : List Int) : List Char :=
  (stamps.zipIdx ordinal).flatMap fun (stamp, ordinal) => line stamp ordinal

/-- An index file. -/
def indexText (stamps : List Int) : List Char := linesFrom 1 stamps

/-- What `main` prints, and the files `topic-0.tsv`, `topic-1.tsv` and so on. -/
structure Output where
  printed : Int
  files : List (List Char)
  deriving DecidableEq, Repr

/-- `main` of `ros2_bag_source_epoch.py`. -/
def sourceEpoch (args : Args) (bag : Bag) : Except String Output := do
  let missing := args.topics.eraseDups.filter (· ∉ bag.topics)
  if missing ≠ [] then throw ("topics absent from bag: " ++ listed missing)
  let e ← scan args { wanted := args.topics.eraseDups } bag.messages
  if e.wanted ≠ [] then throw ("topics contain no messages: " ++ listed e.wanted)
  return {
    printed := (e.sourceTimes.map (·.2)).min?.getD 0
    files :=
      if args.indexDir then args.topics.map fun topic => indexText (e.indexes topic) else [] }

/-- The header timestamps of a topic, in order. -/
def headers (topic : String) (messages : List Message) : List Time :=
  messages.filterMap fun m => if m.topic = topic then m.header else none

/-! ## the reader -/

/-- `SourceJobIndex`: the entries of its map, in insertion order. -/
structure SourceJobIndex where
  entries : List (Nat × Nat) := []
  deriving DecidableEq, Repr

/-- `entries_.find(key)`. -/
def SourceJobIndex.find (index : SourceJobIndex) (key : Nat) : Option (Nat × Nat) :=
  index.entries.find? (·.1 = key)

/-- `entries_.emplace(key, value)`. -/
def SourceJobIndex.emplace (index : SourceJobIndex) (key value : Nat) : SourceJobIndex :=
  if (index.find key).isSome then index else { entries := index.entries ++ [(key, value)] }

/-- The loop of the constructor; the stream it leaves. -/
def readLoop (path : String) (input : Stream) (index : SourceJobIndex) (previous : Nat) :
    Except String (Stream × SourceJobIndex) :=
  match _h : extract 64 input with
  | (none, input) => .ok (input, index)
  | (some stamp, input) => match _h' : extract 64 input with
      | (none, _) => .error ("invalid source job index: " ++ path)
      | (some ordinal, input) =>
          if stamp = 0 ∨ stamp ≤ previous ∨ ordinal ≠ index.entries.length + 1 then
            .error ("invalid source job index: " ++ path)
          else readLoop path input (index.emplace stamp ordinal) stamp
termination_by input.rest.length
decreasing_by
  have h₁ := length_extract _h
  have h₂ := length_extract _h'
  omega

/-- The constructor of `SourceJobIndex`, given what `path` holds. -/
def SourceJobIndex.make (path : String) (content : Option (List Char)) :
    Except String SourceJobIndex :=
  if path = "" then .ok {}
  else match content with
    | none => .error ("cannot open source job index: " ++ path)
    | some text => match readLoop path { rest := text } {} 0 with
        | .error what => .error what
        | .ok (input, index) =>
            if input.eof = false ∨ index.entries = [] then
              .error ("invalid source job index: " ++ path)
            else .ok index

def SourceJobIndex.jobId (index : SourceJobIndex) (sourceNs receiveCounter : Nat) :
    Except String Nat :=
  if index.entries = [] then .ok receiveCounter
  else match index.find sourceNs with
    | none => .error "timestamp absent from bag index"
    | some found => .ok found.2

end ScxSlam.BagIndex
