import CollectorMemory.Chunk.Header
import CollectorMemory.Units

/-!
# Options

The run-time options: thirteen counts and one flag. Each has a name, a default and a condition that
values read from text must meet. `Options.count` and `Options.withCount` see the counts as one
family indexed by `CountField`.
-/

namespace CollectorMemory

/-- The options that hold a count. -/
inductive CountField where
  | threads
  | specializedChunkWords
  | smallChunkWords
  | mediumChunkWords
  | classSpecializedChunkWords
  | classSmallChunkWords
  | classMediumChunkWords
  | nodeWords
  | maxWords
  | classSpaceWords
  | commitGranuleWords
  | regionBytes
  | liveThresholdPercent
deriving DecidableEq

/-- An option. -/
inductive Field where
  | count (field : CountField)
  /-- Whether structures are checked after every change. -/
  | audited
deriving DecidableEq

/-- Values of all options. -/
structure Options where
  /-- Workers of a parallel rebuild of the candidates. -/
  threads : Nat
  /-- Whether structures are checked after every change and unused words are overwritten. -/
  audited : Bool
  /-- Words of a specialized chunk outside of the class space. -/
  specializedChunkWords : Nat
  /-- Words of a small chunk outside of the class space. -/
  smallChunkWords : Nat
  /-- Words of a medium chunk outside of the class space. -/
  mediumChunkWords : Nat
  /-- Words of a specialized chunk of the class space. -/
  classSpecializedChunkWords : Nat
  /-- Words of a small chunk of the class space. -/
  classSmallChunkWords : Nat
  /-- Words of a medium chunk of the class space. -/
  classMediumChunkWords : Nat
  /-- Words of a newly reserved node outside of the class space. -/
  nodeWords : Nat
  /-- Words that all nodes outside of the class space may reserve. -/
  maxWords : Nat
  /-- Words of the class space. -/
  classSpaceWords : Nat
  /-- Nodes commit multiples of this many words. -/
  commitGranuleWords : Nat
  /-- Bytes of a heap region. -/
  regionBytes : Nat
  /-- Regions with more of their bytes live than this percentage are no candidates. -/
  liveThresholdPercent : Nat
deriving DecidableEq

namespace CountField

/-- The name of the option. -/
def name : CountField → String
  | threads => "threads"
  | specializedChunkWords => "specialized_chunk_words"
  | smallChunkWords => "small_chunk_words"
  | mediumChunkWords => "medium_chunk_words"
  | classSpecializedChunkWords => "class_specialized_chunk_words"
  | classSmallChunkWords => "class_small_chunk_words"
  | classMediumChunkWords => "class_medium_chunk_words"
  | nodeWords => "virtual_space_node_words"
  | maxWords => "max_metaspace_words"
  | classSpaceWords => "class_space_words"
  | commitGranuleWords => "commit_granule_words"
  | regionBytes => "region_bytes"
  | liveThresholdPercent => "mixed_gc_live_threshold_percent"

/-- Whether the option admits a value: chunks hold more than a header, a percentage is at most a
hundred, and every other count is positive. -/
def admits : CountField → Nat → Bool
  | specializedChunkWords, value | smallChunkWords, value | mediumChunkWords, value
  | classSpecializedChunkWords, value | classSmallChunkWords, value
  | classMediumChunkWords, value => Header.words < value
  | liveThresholdPercent, value => value ≤ 100
  | threads, value | nodeWords, value | maxWords, value | classSpaceWords, value
  | commitGranuleWords, value | regionBytes, value => 0 < value

end CountField

namespace Field

/-- The name of the option. -/
def name : Field → String
  | count field => field.name
  | audited => "verify_metaspace"

/-- All options, in the order in which they are listed. -/
def all : List Field :=
  [count .threads, audited, count .specializedChunkWords, count .smallChunkWords,
    count .mediumChunkWords, count .classSpecializedChunkWords, count .classSmallChunkWords,
    count .classMediumChunkWords, count .nodeWords, count .maxWords, count .classSpaceWords,
    count .commitGranuleWords, count .regionBytes, count .liveThresholdPercent]

/-- The option with a name, if there is one. -/
def ofName? (name : String) : Option Field := all.find? fun field => field.name == name

theorem mem_all (field : Field) : field ∈ all := by
  cases field with
  | audited => simp [all]
  | count field => cases field <;> simp [all]

end Field

namespace Options

/-- Bytes of a heap region unless set otherwise. -/
def defaultRegionBytes : Nat := Units.bytesInMegabyte

/-- Percentage of live bytes above which a region is no candidate, unless set otherwise. -/
def defaultLiveThresholdPercent : Nat := 85

/-- The options of a fresh start, with as many workers as there are processors. -/
def default (processors : Nat) : Options where
  threads := processors
  audited := true
  specializedChunkWords := 128
  smallChunkWords := 512
  mediumChunkWords := 8 * 1024
  classSpecializedChunkWords := 128
  classSmallChunkWords := 256
  classMediumChunkWords := 4 * 1024
  nodeWords := Units.wordsOfBytes (2 * Units.bytesInMegabyte)
  maxWords := Units.wordsOfBytes (64 * Units.bytesInMegabyte)
  classSpaceWords := Units.wordsOfBytes (16 * Units.bytesInMegabyte)
  commitGranuleWords := Units.wordsOfBytes (64 * Units.bytesInKilobyte)
  regionBytes := defaultRegionBytes
  liveThresholdPercent := defaultLiveThresholdPercent

/-- The value of a count. -/
def count (options : Options) : CountField → Nat
  | .threads => options.threads
  | .specializedChunkWords => options.specializedChunkWords
  | .smallChunkWords => options.smallChunkWords
  | .mediumChunkWords => options.mediumChunkWords
  | .classSpecializedChunkWords => options.classSpecializedChunkWords
  | .classSmallChunkWords => options.classSmallChunkWords
  | .classMediumChunkWords => options.classMediumChunkWords
  | .nodeWords => options.nodeWords
  | .maxWords => options.maxWords
  | .classSpaceWords => options.classSpaceWords
  | .commitGranuleWords => options.commitGranuleWords
  | .regionBytes => options.regionBytes
  | .liveThresholdPercent => options.liveThresholdPercent

/-- The options with another value of one count. -/
def withCount (options : Options) (field : CountField) (value : Nat) : Options :=
  match field with
  | .threads => { options with threads := value }
  | .specializedChunkWords => { options with specializedChunkWords := value }
  | .smallChunkWords => { options with smallChunkWords := value }
  | .mediumChunkWords => { options with mediumChunkWords := value }
  | .classSpecializedChunkWords => { options with classSpecializedChunkWords := value }
  | .classSmallChunkWords => { options with classSmallChunkWords := value }
  | .classMediumChunkWords => { options with classMediumChunkWords := value }
  | .nodeWords => { options with nodeWords := value }
  | .maxWords => { options with maxWords := value }
  | .classSpaceWords => { options with classSpaceWords := value }
  | .commitGranuleWords => { options with commitGranuleWords := value }
  | .regionBytes => { options with regionBytes := value }
  | .liveThresholdPercent => { options with liveThresholdPercent := value }

/-- The options with another value of the flag. -/
def withAudited (options : Options) (value : Bool) : Options := { options with audited := value }

/-- Every count meets the condition of its option. -/
def Valid (options : Options) : Prop := ∀ field : CountField, field.admits (options.count field)

variable (options : Options) (field other : CountField) (value : Nat) (flag : Bool)

@[simp] theorem count_withCount_self : (options.withCount field value).count field = value := by
  cases field <;> rfl

theorem count_withCount_of_ne (different : other ≠ field) :
    (options.withCount field value).count other = options.count other := by
  cases field <;> cases other <;> simp_all [count, withCount]

@[simp] theorem audited_withCount : (options.withCount field value).audited = options.audited := by
  cases field <;> rfl

@[simp] theorem count_withAudited :
    (options.withAudited flag).count field = options.count field := by
  cases field <;> rfl

@[simp] theorem audited_withAudited : (options.withAudited flag).audited = flag := rfl

/-- Options are determined by their counts and their flag. -/
theorem ext_count {left right : Options} (counts : ∀ field, left.count field = right.count field)
    (flags : left.audited = right.audited) : left = right := by
  cases left
  cases right
  simp only [mk.injEq]
  exact ⟨counts .threads, flags, counts .specializedChunkWords, counts .smallChunkWords,
    counts .mediumChunkWords, counts .classSpecializedChunkWords, counts .classSmallChunkWords,
    counts .classMediumChunkWords, counts .nodeWords, counts .maxWords, counts .classSpaceWords,
    counts .commitGranuleWords, counts .regionBytes, counts .liveThresholdPercent⟩

end Options

end CollectorMemory
