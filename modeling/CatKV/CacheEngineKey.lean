/-
`CacheEngineKey` and `LayerCacheEngineKey`: the fields of a key, the tags taken
from the configuration of its request, equality and hash, the text and the
dictionary of a key and the ways back, and the names of the files for a key.
-/
import CatKV.OrderedDict
import CatKV.PythonText

namespace CatKV

/-- A value of a request configuration: a string, or something else. -/
inductive ConfigValue (ω : Type) where
  | text (value : Text)
  | other (value : ω)
deriving Repr, DecidableEq

/-- What Python does with the values that are not strings: how they are
formatted and compared as members of a container, and their hashes, if they
have any.  A value is the same as itself, values that are the same have equal
hashes, and a tuple is hashed by way of its members. -/
structure ValueMethods (ω : Type) where
  format : ω → Text
  same : ω → ω → Bool
  hash : ω → Option Int
  hashText : Text → Int
  hashInt : Int → Int
  hashNone : Int
  hashTuple : List Int → Int
  same_self : ∀ value, same value value = true
  hash_same : ∀ value other, same value other = true → hash value = hash other

abbrev RequestConfigs (ω : Type) := OrderedDict Text (ConfigValue ω)

abbrev Tag (ω : Type) := Text × ConfigValue ω

structure CacheEngineKey (ω : Type) where
  fmt : Text
  modelName : Text
  worldSize : Int
  workerId : Int
  chunkHash : Int
  requestConfigs : Option (RequestConfigs ω)

structure LayerCacheEngineKey (ω : Type) extends CacheEngineKey ω where
  layerId : Int

namespace ValueMethods

variable {ω : Type} (methods : ValueMethods ω)

def formatValue : ConfigValue ω → Text
  | .text value => value
  | .other value => methods.format value

/-- `==`: a string equals no other value. -/
def sameValue : ConfigValue ω → ConfigValue ω → Bool
  | .text first, .text second => decide (first = second)
  | .other first, .other second => methods.same first second
  | _, _ => false

def hashValue : ConfigValue ω → Option Int
  | .text value => some (methods.hashText value)
  | .other value => methods.hash value

def sameTags : List (Tag ω) → List (Tag ω) → Bool
  | [], [] => true
  | first :: firsts, second :: seconds =>
    decide (first.1 = second.1) && methods.sameValue first.2 second.2 && sameTags firsts seconds
  | _, _ => false

def sameOptionalTags : Option (List (Tag ω)) → Option (List (Tag ω)) → Bool
  | none, none => true
  | some first, some second => methods.sameTags first second
  | _, _ => false

/-- `f"{k}%{v}"`. -/
def tagText (tag : Tag ω) : Text := tag.1 ++ '%' :: methods.formatValue tag.2

def hashTag (tag : Tag ω) : Option Int :=
  (methods.hashValue tag.2).map fun hash =>
    methods.hashTuple [methods.hashText tag.1, hash]

end ValueMethods

/-- `lmcache.tag.` -/
def tagMark : Text := "lmcache.tag.".toList

section Tags

variable {ω : Type}

def tagOf (entry : Text × ConfigValue ω) : Option (Tag ω) :=
  if tagMark.isPrefixOf entry.1 then some (entry.1.drop tagMark.length, entry.2)
  else none

def tagList (configs : RequestConfigs ω) : List (Tag ω) := configs.entries.filterMap tagOf

/-- `tags`, from `__post_init__`: `None` when there are none. -/
def CacheEngineKey.tags (key : CacheEngineKey ω) : Option (List (Tag ω)) :=
  match key.requestConfigs.map tagList with
  | none | some [] => none
  | some (tag :: rest) => some (tag :: rest)

end Tags

namespace CacheEngineKey

variable {ω : Type} (methods : ValueMethods ω) (key other : CacheEngineKey ω)

/-- The fields that `__eq__` compares, for keys of one class. -/
def isEq : Bool :=
  decide (key.fmt = other.fmt) && decide (key.modelName = other.modelName) &&
    decide (key.worldSize = other.worldSize) &&
    decide (key.workerId = other.workerId) &&
    decide (key.chunkHash = other.chunkHash) &&
    methods.sameOptionalTags key.tags other.tags

def hashTags : Option Int :=
  match key.tags with
  | none => some methods.hashNone
  | some tags => (tags.mapM methods.hashTag).map methods.hashTuple

def hashFields : Option (List Int) :=
  key.hashTags methods |>.map fun tags =>
    [methods.hashText key.fmt, methods.hashText key.modelName,
      methods.hashInt key.worldSize, methods.hashInt key.workerId,
      methods.hashInt key.chunkHash, tags]

/-- The parts of `to_string` before the tags. -/
def headParts : List Text :=
  [key.fmt, key.modelName, intText 10 key.worldSize, intText 10 key.workerId,
    intText 16 key.chunkHash]

def tagParts : List Text := (key.tags.getD []).map methods.tagText

def toText : Text := ['@'].intercalate (key.headParts ++ key.tagParts methods)

/-- The configuration that the parts after the head stand for. -/
def configsFrom (mark : Text) : List Text → Option (Option (RequestConfigs ω))
  | [] => some none
  | parts => (parts.foldlM (fun configs part =>
    (splitOnce '%' part).map fun pair =>
      configs.set (mark ++ pair.1) (.text pair.2)) OrderedDict.empty).map some

def fromParts (fmt modelName worldSize workerId chunkHash : Text)
    (tags : List Text) : Option (CacheEngineKey ω) := do
  let configs ← configsFrom tagMark tags
  let worldSize ← parseInt 10 worldSize
  let workerId ← parseInt 10 workerId
  let chunkHash ← parseInt 16 chunkHash
  return ⟨fmt, modelName, worldSize, workerId, chunkHash, configs⟩

/-- `from_string`. -/
def fromText (text : Text) : Option (CacheEngineKey ω) :=
  match text.splitOn '@' with
  | fmt :: modelName :: worldSize :: workerId :: chunkHash :: tags =>
    fromParts fmt modelName worldSize workerId chunkHash tags
  | _ => none

/-- The dictionary of `to_dict`; `__type__` is the same for all. -/
structure Dict where
  fmt : Text
  modelName : Text
  worldSize : Int
  workerId : Int
  chunkHash : Int
  requestConfigs : Option (List Text)

def toDict : Dict where
  fmt := key.fmt
  modelName := key.modelName
  worldSize := key.worldSize
  workerId := key.workerId
  chunkHash := key.chunkHash
  requestConfigs :=
    match key.requestConfigs.map fun configs =>
      configs.entries.map methods.tagText with
    | none | some [] => none
    | some (text :: rest) => some (text :: rest)

def fromDict (dict : Dict) : Option (CacheEngineKey ω) :=
  (configsFrom [] (dict.requestConfigs.getD [])).map fun configs =>
    ⟨dict.fmt, dict.modelName, dict.worldSize, dict.workerId, dict.chunkHash, configs⟩

end CacheEngineKey

namespace LayerCacheEngineKey

variable {ω : Type} (methods : ValueMethods ω) (key other : LayerCacheEngineKey ω)

def isEq : Bool :=
  key.toCacheEngineKey.isEq methods other.toCacheEngineKey && decide (key.layerId = other.layerId)

def toText : Text :=
  ['@'].intercalate (key.headParts ++ intText 10 key.layerId :: key.tagParts methods)

def fromText (text : Text) : Option (LayerCacheEngineKey ω) :=
  match text.splitOn '@' with
  | fmt :: modelName :: worldSize :: workerId :: chunkHash :: layerId :: tags =>
    do
      let base ← CacheEngineKey.fromParts fmt modelName worldSize workerId chunkHash tags
      let layerId ← parseInt 10 layerId
      return { base with layerId := layerId }
  | _ => none

end LayerCacheEngineKey

/-- A key of either class. -/
inductive AnyKey (ω : Type) where
  | chunk (key : CacheEngineKey ω)
  | layer (key : LayerCacheEngineKey ω)

namespace AnyKey

variable {ω : Type} (methods : ValueMethods ω)

def base : AnyKey ω → CacheEngineKey ω
  | .chunk key => key
  | .layer key => key.toCacheEngineKey

def layerId : AnyKey ω → Option Int
  | .chunk _ => none
  | .layer key => some key.layerId

/-- `==`: `type(self) is type(other)` comes first. -/
def isEq : AnyKey ω → AnyKey ω → Bool
  | .chunk key, .chunk other => key.isEq methods other
  | .layer key, .layer other => key.isEq methods other
  | _, _ => false

def hash (key : AnyKey ω) : Option Int :=
  (key.base.hashFields methods).map fun fields =>
    methods.hashTuple (fields ++ (key.layerId.map methods.hashInt).toList)

def toText : AnyKey ω → Text
  | .chunk key => key.toText methods
  | .layer key => key.toText methods

/-- `from_string` of the class of the key. -/
def fromText : AnyKey ω → Text → Option (AnyKey ω)
  | .chunk _, text => (CacheEngineKey.fromText text).map .chunk
  | .layer _, text => (LayerCacheEngineKey.fromText text).map .layer

/-- `key.to_string().replace("/", "-")`. -/
def fileStem (key : AnyKey ω) : Text :=
  (key.toText methods).map fun letter => if letter = '/' then '-' else letter

end AnyKey

/-- `os.path.join` of a directory and a relative path. -/
def pathJoin (directory name : Text) : Text :=
  if directory = [] ∨ directory.getLast? = some '/' then directory ++ name
  else directory ++ '/' :: name

section Files

variable {ω : Type} (methods : ValueMethods ω)

/-- `LocalDiskBackend._key_to_path`. -/
def keyToPath (path : Text) (key : AnyKey ω) : Text :=
  pathJoin path (key.fileStem methods ++ ".pt".toList)

/-- The directories of `FSConnector`; there is at least one. -/
structure FSConnector where
  basePaths : List Text
  basePaths_ne_nil : basePaths ≠ []

def FSConnector.basePath (connector : FSConnector) (chunkHash : Int) : Text :=
  connector.basePaths.getD (chunkHash.natAbs % connector.basePaths.length) []

/-- `FSConnector._get_file_path`. -/
def FSConnector.getFilePath (connector : FSConnector) (key : AnyKey ω) : Text :=
  pathJoin (connector.basePath key.base.chunkHash) (key.fileStem methods ++ ".data".toList)

end Files

end CatKV
