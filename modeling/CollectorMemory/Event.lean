import CollectorMemory.Chunk.Basic
import CollectorMemory.Text
import CollectorMemory.Units

/-!
# Events

What an operation reports as it goes: each event is a value that names what happened and to what,
with a level of severity and a text. Nothing depends on which levels are listened to.
-/

namespace CollectorMemory

/-- How severe an event is, most severe first. -/
inductive Level where
  | error
  | warn
  | info
  | debug
  | trace
deriving DecidableEq

/-- The place of a level among all levels, most severe first. -/
def Level.rank : Level → Nat
  | error => 0
  | warn => 1
  | info => 2
  | debug => 3
  | trace => 4

/-- The name of a level. -/
def Level.name : Level → String
  | error => "ERROR"
  | warn => "WARN"
  | info => "INFO"
  | debug => "DEBUG"
  | trace => "TRACE"

/-- Why a setting was not taken over. -/
inductive Refusal where
  /-- No option has this name. -/
  | unknownName (name : String)
  /-- The value cannot be read at the type of the option. -/
  | unreadable (name value : String)
  /-- The value is read, but outside of what the option admits. -/
  | notAdmitted (name : String) (value : Nat)
  /-- The setting has no equals sign. -/
  | malformed (setting : String)

/-- The wording of a refusal. -/
def Refusal.text : Refusal → String
  | unknownName name => s!"Unknown option key {Text.quoted name}"
  | unreadable name value =>
    s!"Unable to set {name}={Text.quoted value}. Can't parse value. Default value will be used."
  | notAdmitted name value =>
    s!"Unable to set {name}={value}. Invalid value. Default value will be used."
  | malformed setting => s!"Malformed option {Text.quoted setting}, expected key=value"

/-- What a free pool holds, in numbers. -/
structure PoolSummary where
  /-- Whether the pool serves the class space. -/
  isClass : Bool
  /-- Free specialized chunks. -/
  specialized : Nat
  /-- Free small chunks. -/
  small : Nat
  /-- Free medium chunks. -/
  medium : Nat
  /-- Free humongous chunks. -/
  humongous : Nat
  /-- The number of all free chunks that the pool accounts for. -/
  chunks : Nat
  /-- The number of words in them. -/
  words : Nat

/-- The text of a pool summary. -/
def PoolSummary.text (summary : PoolSummary) : String :=
  s!"{Space.poolName summary.isClass} free chunks: specialized {summary.specialized}, "
    ++ s!"small {summary.small}, medium {summary.medium}, humongous {summary.humongous}, "
    ++ s!"total {summary.chunks} chunks / {summary.words} words"

/-- Something worth reporting. -/
inductive Event where
  | refused (refusal : Refusal)
  | reserved (id : NodeId) (words : Nat)
  | expanded (id : NodeId) (amount committed limit : Nat)
  | padding (id : NodeId) (start stop : Nat)
  | carved (chunk : Chunk)
  | retired (id : NodeId) (chunks : Nat)
  | tookFree (isClass : Bool) (chunk : Chunk) (left : Nat)
  | splitting (isClass : Bool) (chunk : Chunk) (target : Kind)
  | returned (isClass : Bool) (chunk : Chunk)
  | coalescing (isClass : Bool) (start stop : Nat) (id : NodeId)
  | coalesced (isClass : Bool) (chunk : Chunk)
  | noFirstNode (space : Space) (words limit : Nat)
  | cannotReserve (words taken limit : Nat)
  | cannotExpand (space : Space) (words allowed : Nat)
  | carvingFailed (words : Nat)
  | purgingNode (id : NodeId) (committed used : Nat)
  | initialized (audited : Bool)
  | allocated (chunk : Chunk)
  | allocationFailed (words : Nat) (pool : PoolSummary)
  | purged (nodes : Nat) (space : Space) (pool : PoolSummary)
  | livenessPhase (phase : String)
  | livenessHeading
  | liveness (typeName : String) (region live reclaimable : Nat)
  | rebuilt (candidates regions bytes : Nat)

namespace Event

/-- The level of an event. -/
def level : Event → Level
  | refused .. | noFirstNode .. | carvingFailed .. | allocationFailed .. => .warn
  | reserved .. | purgingNode .. | initialized .. | purged .. | rebuilt .. => .info
  | carved .. | retired .. | splitting .. | coalesced .. | cannotReserve .. | cannotExpand ..
  | allocated .. => .debug
  | expanded .. | padding .. | tookFree .. | returned .. | coalescing .. | livenessPhase ..
  | livenessHeading | liveness .. => .trace

/-- A cell of a table: the text moved to the right of a column. -/
def cell (width : Nat) (text : String) : String :=
  String.ofList (List.replicate (width - text.length) ' ') ++ text

/-- A row of the liveness table. -/
def livenessRow (typeName region live reclaimable : String) : String :=
  s!"### {cell 6 typeName} {cell 8 region} {cell 14 live} {cell 14 reclaimable}"

/-- The text of an event. -/
def text : Event → String
  | refused refusal => refusal.text
  | reserved id words =>
    "Reserved " ++ (if id.space.isClass then "class" else "non-class")
      ++ s!" node {id.text} of {words} words ({Units.bytesText (Units.bytesOfWords words)})"
  | expanded id amount committed limit =>
    s!"Expanded node {id.text} by {amount} words, committed {committed} of {limit}"
  | padding id start stop =>
    s!"Creating padding chunks in {id.text} between {Text.hex start} and {Text.hex stop}"
  | carved chunk => s!"Carved {chunk.text}"
  | retired id chunks => s!"Retired node {id.text} into {chunks} chunks"
  | tookFree isClass chunk left =>
    s!"{Space.poolName isClass}: took {chunk.text} from the free pool, {left} chunks left"
  | splitting isClass chunk target =>
    s!"{Space.poolName isClass}: splitting {chunk.text} to get a {target.name} chunk"
  | returned isClass chunk => s!"{Space.poolName isClass}: returned {chunk.text} to the free pool"
  | coalescing isClass start stop id =>
    s!"{Space.poolName isClass}: coalescing chunks in area [{Text.hex start}-{Text.hex stop}) "
      ++ s!"of {id.text}"
  | coalesced isClass chunk => s!"{Space.poolName isClass}: created coalesced chunk {chunk.text}"
  | noFirstNode space words limit =>
    s!"Could not reserve the initial {space.name} node of {words} words (limit {limit})"
  | cannotReserve words taken limit =>
    s!"Cannot reserve a node of {words} words: {taken} of {limit} words already reserved"
  | cannotExpand space words allowed =>
    s!"Cannot expand {space.name} metaspace by {words} words, only {allowed} allowed"
  | carvingFailed words => s!"Carving a chunk of {words} words failed right after expansion"
  | purgingNode id committed used =>
    s!"Purging node {id.text} (capacity: {committed} words, used: {used} words)"
  | initialized audited => s!"Initialized metaspace context (verify: {audited})"
  | allocated chunk => s!"Allocated {chunk.text}"
  | allocationFailed words pool => s!"Chunk allocation of {words} words failed. {pool.text}"
  | purged nodes space pool => s!"Purged {nodes} {space.name} nodes. {pool.text}"
  | livenessPhase phase => s!"### {phase}"
  | livenessHeading => livenessRow "type" "index" "live" "reclaimable"
  | liveness typeName region live reclaimable =>
    livenessRow typeName (toString region) (toString live) (toString reclaimable)
  | rebuilt candidates regions bytes =>
    s!"Rebuilt collection set candidates: {candidates} of {regions} regions, "
      ++ s!"{bytes} reclaimable bytes"

end Event

end CollectorMemory
