/-
The shared key_sv names of `shared_key_sv.py` beside those of
`shared_key_sv_path.cpp`.  The native side cuts the base path at its last slash;
the Python side goes through `PurePosixPath`, which drops empty parts, single
dots and a closing slash.  Strings are their UTF-8 bytes on both sides.
-/
import Mathlib.Data.List.Basic
import CatKV.KeySvNames
import CatKV.PythonText

namespace CatKV

open List
namespace SharedPaths

def slash : UInt8 := charByte '/'

/-! `PurePosixPath`. -/

/-- `posixpath.splitroot`: exactly two leading slashes are a root of their
own. -/
def splitRoot (path : Bytes) : Bytes × Bytes :=
  if path.take 1 ≠ [slash] then ([], path)
  else if (path.drop 1).take 1 ≠ [slash] ∨ (path.drop 2).take 1 = [slash] then
    ([slash], path.drop 1)
  else (path.take 2, path.drop 2)

/-- Neither empty nor a single dot. -/
def isPart (part : Bytes) : Bool := part != [] && part != ascii "."

structure PurePosixPath where
  root : Bytes
  tail : List Bytes

namespace PurePosixPath

def parse (path : Bytes) : PurePosixPath :=
  ⟨(splitRoot path).1, ((splitRoot path).2.splitOn slash).filter isPart⟩

def str (path : PurePosixPath) : Bytes :=
  let text := path.root ++ [slash].intercalate path.tail
  if text = [] then ascii "." else text

def parent (path : PurePosixPath) : PurePosixPath := { path with tail := path.tail.dropLast }

/-- `path / name`; an absolute name stands for itself. -/
def truediv (path : PurePosixPath) (name : Bytes) : PurePosixPath :=
  if (parse name).root ≠ [] then parse name
  else { path with tail := path.tail ++ (parse name).tail }

end PurePosixPath

/-! `shared_key_sv.py`. -/

def toSignedInt32 (value : Nat) : Int :=
  let value := value &&& 0xFFFFFFFF
  if value ≥ 1 <<< 31 then (value : Int) - (1 <<< 32 : Nat) else value

def uuidToTensor (uuid : Bytes) : Uuid :=
  let hashValue := uuid.foldl (fun hashValue byte =>
      ((hashValue ^^^ byte.toNat) * 1099511628211) &&& 0xFFFFFFFFFFFFFFFF)
    1469598103934665603
  [toSignedInt32 ((hashValue >>> 32) &&& 0xFFFFFFFF), toSignedInt32 (hashValue &&& 0xFFFFFFFF)]

def uuidTensorToPathId (uuid : Uuid) : Bytes := (ascii "_").intercalate (uuid.map decimalInt)

def filename (uuid : Uuid) (layerIdx : Int) : Bytes :=
  uuidTensorToPathId uuid ++ ascii "_layer_" ++ decimalInt layerIdx ++ ascii "_key_sv"

def getSharedKeySvFilename (uuid : Uuid) (layerIdx : Int) (baseKey : Bytes) : Bytes :=
  let parent := (PurePosixPath.parse baseKey).parent
  if parent.str = ascii "." then filename uuid layerIdx
  else (parent.truediv (filename uuid layerIdx)).str

/-! The hash. -/

theorem and_mask32 (value : Nat) : value &&& 0xFFFFFFFF = value % 2 ^ 32 :=
  Nat.and_two_pow_sub_one_eq_mod value 32

theorem and_mask64 (value : Nat) : value &&& 0xFFFFFFFFFFFFFFFF = value % 2 ^ 64 :=
  Nat.and_two_pow_sub_one_eq_mod value 64

theorem toSignedInt32_toNat (value : UInt32) :
    toSignedInt32 value.toNat = CatKV.toSignedInt32 value := by
  have hlt := value.toNat_lt
  have hbits : CatKV.toSignedInt32 value = value.toBitVec.toInt := rfl
  have hsame : value.toBitVec.toNat = value.toNat := rfl
  rw [hbits, BitVec.toInt_eq_toNat_cond, hsame, toSignedInt32, and_mask32, Nat.mod_eq_of_lt hlt]
  simp only [Nat.one_shiftLeft]
  split <;> split <;> omega

theorem hash_step (hash : UInt64) (byte : UInt8) :
    ((hash.toNat ^^^ byte.toNat) * 1099511628211) &&& 0xFFFFFFFFFFFFFFFF =
      ((hash ^^^ byte.toUInt64) * 1099511628211).toNat := by
  rw [and_mask64, UInt64.toNat_mul, UInt64.toNat_xor, UInt8.toNat_toUInt64]
  rfl

theorem hash_run (uuid : Bytes) (hash : UInt64) : uuid.foldl (fun hashValue byte =>
      ((hashValue ^^^ byte.toNat) * 1099511628211) &&& 0xFFFFFFFFFFFFFFFF)
    hash.toNat = (uuid.foldl (fun hash byte => (hash ^^^ byte.toUInt64) * 1099511628211)
      hash).toNat := by
  induction uuid generalizing hash with
  | nil => rfl
  | cons byte rest ih => rw [foldl_cons, foldl_cons, hash_step, ih]

theorem uuidToTensor_eq (uuid : Bytes) : uuidToTensor uuid = uuidStringToTensor uuid := by
  have hrun := hash_run uuid 1469598103934665603
  rw [show (1469598103934665603 : UInt64).toNat = 1469598103934665603 from rfl] at hrun
  simp only [uuidToTensor, uuidStringToTensor, hrun, ← toSignedInt32_toNat,
    UInt64.toNat_toUInt32, UInt64.toNat_shiftRight, and_mask32]
  rfl

theorem uuidTensorToPathId_eq (uuid : Uuid) :
    uuidTensorToPathId uuid = CatKV.uuidTensorToPathId uuid := by
  induction uuid with
  | nil => rfl
  | cons word rest ih =>
    cases rest with
    | nil => simp [uuidTensorToPathId, CatKV.uuidTensorToPathId]
    | cons next rest =>
      rw [CatKV.uuidTensorToPathId, ← ih]
      simp [uuidTensorToPathId]

/-! Directories. -/

/-- Parts with a slash after each. -/
def joinDirs (dirs : List Bytes) : Bytes := dirs.flatMap (· ++ [slash])

theorem intercalate_snoc (dirs : List Bytes) (name : Bytes) :
    [slash].intercalate (dirs ++ [name]) = joinDirs dirs ++ name := by
  induction dirs with
  | nil => simp [joinDirs]
  | cons dir rest ih =>
    have hcons : [slash].intercalate (dir :: (rest ++ [name])) =
        dir ++ [slash] ++ [slash].intercalate (rest ++ [name]) := by
      cases rest <;> simp
    rw [cons_append, hcons, ih]
    simp [joinDirs]

theorem joinDirs_cases (dirs : List Bytes) :
    joinDirs dirs = [] ∨ ∃ before, joinDirs dirs = before ++ [slash] := by
  rcases eq_nil_or_concat dirs with rfl | ⟨before, last, rfl⟩
  · exact Or.inl rfl
  · exact Or.inr ⟨joinDirs before ++ last, by simp [joinDirs]⟩

theorem directoryOf_append {directory name : Bytes}
    (hdirectory : directory = [] ∨ ∃ before, directory = before ++ [slash])
    (hname : slash ∉ name) : directoryOf (directory ++ name) = directory := by
  rcases hdirectory with rfl | ⟨before, rfl⟩
  · rw [nil_append, directoryOf, reverse_eq_nil_iff, dropWhile_eq_nil_iff]
    intro byte hbyte
    rw [bne_iff_ne]
    rintro rfl
    exact hname (mem_reverse.mp hbyte)
  · exact directoryOf_append_of_not_mem before name hname

theorem directoryOf_cases (path : Bytes) : directoryOf path = [] ∨
    ∃ before, directoryOf path = before ++ [slash] := by
  rw [directoryOf, reverse_eq_nil_iff]
  cases hdrop : path.reverse.dropWhile (· != charByte '/') with
  | nil => exact Or.inl rfl
  | cons byte rest =>
    have hstop := head?_dropWhile_not (· != charByte '/') path.reverse
    rw [hdrop] at hstop
    exact Or.inr ⟨rest.reverse, by simpa [slash] using hstop⟩

theorem exists_eq_directoryOf_append (path : Bytes) :
    ∃ name, path = directoryOf path ++ name ∧ slash ∉ name := by
  refine ⟨(path.reverse.takeWhile (· != slash)).reverse, ?_, ?_⟩
  · have hsplit := congrArg List.reverse
      (takeWhile_append_dropWhile (p := (· != slash)) (l := path.reverse))
    rw [reverse_append, reverse_reverse] at hsplit
    exact hsplit.symm
  · intro hmem
    have hne := mem_takeWhile_imp (mem_reverse.mp hmem)
    simp at hne

/-- A root that `PurePosixPath` keeps. -/
def IsRoot (root : Bytes) : Prop := root = [] ∨ root = [slash] ∨ root = [slash, slash]

theorem splitRoot_append {root rest : Bytes} (hroot : IsRoot root)
    (hrest : rest.head? ≠ some slash) : splitRoot (root ++ rest) = (root, rest) := by
  have htake : rest.take 1 ≠ [slash] := by
    cases rest with
    | nil => simp
    | cons byte rest => simpa using hrest
  rcases hroot with rfl | rfl | rfl
  · simp [splitRoot, htake]
  · simp [splitRoot, htake]
  · simp [splitRoot, htake]

theorem isRoot_splitRoot (path : Bytes) : IsRoot (splitRoot path).1 := by
  rw [splitRoot]
  split
  · exact Or.inl rfl
  split
  · exact Or.inr (Or.inl rfl)
  · next hfirst hsecond =>
    rw [not_or, not_not] at hsecond
    rw [not_not] at hfirst
    have htwo := take_add (l := path) (i := 1) (j := 1)
    rw [hfirst, hsecond.1] at htwo
    exact Or.inr (Or.inr htwo)

/-- A part of a path: not empty, not a dot, and without a slash. -/
def IsDir (dir : Bytes) : Prop := isPart dir = true ∧ slash ∉ dir

theorem IsDir.ne_nil {dir : Bytes} (hdir : IsDir dir) : dir ≠ [] := by
  rintro rfl
  exact absurd hdir.1 (by decide)

theorem parse_append {root name : Bytes} {dirs : List Bytes} (hroot : IsRoot root)
    (hdirs : ∀ dir ∈ dirs, IsDir dir) (hname : slash ∉ name) :
    PurePosixPath.parse (root ++ joinDirs dirs ++ name) = ⟨root, dirs ++ [name].filter isPart⟩ := by
  have hrest : (joinDirs dirs ++ name).head? ≠ some slash := by
    intro hhead
    cases dirs with
    | nil => exact hname (mem_of_mem_head? hhead)
    | cons dir rest =>
      have hdir := hdirs dir mem_cons_self
      have hfirst : dir.head? = some slash := by
        rw [← hhead, joinDirs, flatMap_cons, append_assoc,
          append_assoc, head?_append_of_ne_nil _ hdir.ne_nil]
      exact hdir.2 (mem_of_mem_head? hfirst)
  have hsplit : (joinDirs dirs ++ name).splitOn slash = dirs ++ [name] := by
    rw [← intercalate_snoc, splitOn_intercalate]
    · intro part hpart
      rcases mem_append.mp hpart with hdir | hlast
      · exact (hdirs part hdir).2
      · rwa [mem_singleton.mp hlast]
    · simp
  have hkeep : dirs.filter isPart = dirs := filter_eq_self.mpr fun dir hdir => (hdirs dir hdir).1
  rw [PurePosixPath.parse, append_assoc, splitRoot_append hroot hrest, hsplit, filter_append, hkeep]

theorem isDir_of_mem_parse {path part : Bytes}
    (hpart : part ∈ (PurePosixPath.parse path).tail) : IsDir part := by
  rw [PurePosixPath.parse, mem_filter] at hpart
  exact ⟨hpart.2, not_mem_of_mem_splitOn hpart.1⟩

theorem str_eq_dot {path : PurePosixPath} (hroot : IsRoot path.root)
    (htail : ∀ part ∈ path.tail, IsDir part) (hdot : path.str = ascii ".") :
    path.root = [] ∧ path.tail = [] := by
  obtain ⟨root, tail⟩ := path
  dsimp only at hroot htail ⊢
  rw [PurePosixPath.str] at hdot
  cases tail with
  | nil =>
    rcases hroot with rfl | rfl | rfl
    · exact ⟨rfl, rfl⟩
    · exact absurd hdot (by decide)
    · exact absurd hdot (by decide)
  | cons part rest =>
    have hpart := htail part mem_cons_self
    have hpos := length_pos_iff.mpr hpart.ne_nil
    have hlengths : (root ++ [slash].intercalate (part :: rest)).length = 1 := by
      have hne : root ++ [slash].intercalate (part :: rest) ≠ [] := by
        intro hnil
        cases rest <;> simp [hpart.ne_nil] at hnil
      dsimp only at hdot
      rw [if_neg hne] at hdot
      rw [hdot]
      rfl
    cases rest with
    | nil =>
      simp only [length_append, intercalate_singleton] at hlengths
      have hroot' : root = [] := length_eq_zero_iff.mp (by omega)
      simp only [hroot', nil_append, intercalate_singleton, hpart.ne_nil, if_false] at hdot
      rw [hdot] at hpart
      exact absurd hpart.1 (by decide)
    | cons next rest =>
      simp only [length_append, intercalate_cons_cons, length_singleton] at hlengths
      omega

/-! The file name. -/

theorem slash_not_mem_pathId (uuid : Uuid) : slash ∉ CatKV.uuidTensorToPathId uuid := by
  fun_induction CatKV.uuidTensorToPathId uuid with
  | case1 => simp
  | case2 word => exact not_mem_decimalInt (by decide) (by decide) word
  | case3 word next rest ih =>
    simp only [mem_append, not_or]
    exact ⟨⟨not_mem_decimalInt (by decide) (by decide) word, by decide⟩, ih⟩

theorem slash_not_mem_filename (uuid : Uuid) (layerIdx : Int) : slash ∉ filename uuid layerIdx := by
  rw [filename, uuidTensorToPathId_eq]
  simp only [mem_append, not_or]
  exact ⟨⟨⟨slash_not_mem_pathId uuid, by decide⟩,
    not_mem_decimalInt (by decide) (by decide) layerIdx⟩, by decide⟩

theorem parse_filename (uuid : Uuid) (layerIdx : Int) :
    PurePosixPath.parse (filename uuid layerIdx) = ⟨[], [filename uuid layerIdx]⟩ := by
  have hlength : 7 ≤ (filename uuid layerIdx).length := by
    simp only [filename, length_append]
    exact Nat.le_add_left 7 _
  have hpart : isPart (filename uuid layerIdx) = true := by
    rw [isPart, Bool.and_eq_true, bne_iff_ne, bne_iff_ne]
    constructor <;> intro heq <;> rw [heq] at hlength <;> exact absurd hlength (by decide)
  have hnone : ∀ dir ∈ ([] : List Bytes), IsDir dir := by simp
  have hparse := parse_append (Or.inl rfl) hnone (slash_not_mem_filename uuid layerIdx)
  simpa [joinDirs, hpart] using hparse

theorem getSharedKeySvFilename_eq (uuid : Uuid) (layerIdx : Int)
    (baseKey : Bytes) : getSharedKeySvFilename uuid layerIdx baseKey =
      (PurePosixPath.parse baseKey).root ++ joinDirs (PurePosixPath.parse baseKey).tail.dropLast ++
          filename uuid layerIdx := by
  have hroot : IsRoot (PurePosixPath.parse baseKey).root := isRoot_splitRoot baseKey
  have htail : ∀ part ∈ (PurePosixPath.parse baseKey).tail.dropLast, IsDir part := fun part hpart =>
    isDir_of_mem_parse (dropLast_subset _ hpart)
  rw [getSharedKeySvFilename]
  split
  · next hdot =>
    have hempty : (PurePosixPath.parse baseKey).root = [] ∧
        (PurePosixPath.parse baseKey).tail.dropLast = [] :=
      @str_eq_dot (PurePosixPath.parse baseKey).parent hroot htail hdot
    rw [hempty.1, hempty.2]
    rfl
  · have hne : filename uuid layerIdx ≠ [] := by simp [filename, ascii]
    simp [PurePosixPath.truediv, parse_filename, PurePosixPath.parent,
      PurePosixPath.str, intercalate_snoc, hne]

/-- A base path that `PurePosixPath` leaves as it is, up to its last part: a
root of at most two slashes, then the directories; without directories the last
part may also be empty or a dot. -/
def NormalBase (base : Bytes) : Prop :=
  ∃ root dirs name, base = root ++ joinDirs dirs ++ name ∧ IsRoot root ∧
    (∀ dir ∈ dirs, IsDir dir) ∧ slash ∉ name ∧
    (isPart name = true ∨ dirs = [])

theorem directory_cases {root : Bytes} (hroot : IsRoot root)
    (dirs : List Bytes) : root ++ joinDirs dirs = [] ∨
      ∃ before, root ++ joinDirs dirs = before ++ [slash] := by
  rcases joinDirs_cases dirs with hnil | ⟨before, heq⟩
  · rw [hnil, append_nil]
    rcases hroot with rfl | rfl | rfl
    · exact Or.inl rfl
    · exact Or.inr ⟨[], rfl⟩
    · exact Or.inr ⟨[slash], rfl⟩
  · exact Or.inr ⟨root ++ before, by rw [heq, append_assoc]⟩

theorem directoryOf_eq_iff (base : Bytes) : directoryOf base = (PurePosixPath.parse base).root ++
      joinDirs (PurePosixPath.parse base).tail.dropLast ↔
    NormalBase base := by
  constructor
  · intro heq
    obtain ⟨name, hbase, hname⟩ := exists_eq_directoryOf_append base
    have hroot : IsRoot (PurePosixPath.parse base).root := isRoot_splitRoot base
    have hdirs : ∀ dir ∈ (PurePosixPath.parse base).tail.dropLast, IsDir dir :=
      fun dir hdir => isDir_of_mem_parse (dropLast_subset _ hdir)
    rw [heq] at hbase
    refine ⟨_, _, name, hbase, hroot, hdirs, hname, ?_⟩
    by_contra hneither
    rw [not_or, Bool.not_eq_true] at hneither
    -- then the last directory was dropped for the last part
    have hparse := parse_append hroot hdirs hname
    rw [← hbase] at hparse
    have htail := congrArg PurePosixPath.tail hparse
    simp only [filter_singleton, hneither.1, cond_false, append_nil] at htail
    have hlength := congrArg List.length htail
    rw [length_dropLast] at hlength
    apply hneither.2
    rw [← htail]
    exact length_eq_zero_iff.mp (by omega)
  · rintro ⟨root, dirs, name, rfl, hroot, hdirs, hname, hlast⟩
    have hdrop : (dirs ++ [name].filter isPart).dropLast = dirs := by
      rcases hlast with hpart | rfl
      · simp [hpart]
      · cases hpart : isPart name <;> simp [hpart]
    rw [parse_append hroot hdirs hname, hdrop]
    exact directoryOf_append (directory_cases hroot dirs) hname

/-! Reading a name back. -/

theorem filename_two (high low layerIdx : Int) :
    filename [high, low] layerIdx = decimalInt high ++ ascii "_" ++ (decimalInt low ++ ascii "_" ++
        (layerMarker ++ (decimalInt layerIdx ++ keySvSuffix))) := by
  have hmark : ascii "_layer_" = ascii "_" ++ layerMarker := by decide
  simp only [filename, uuidTensorToPathId_eq, CatKV.uuidTensorToPathId, hmark,
    append_assoc, keySvSuffix]

theorem filename_two_injective {high low high' low' layerIdx layerIdx' : Int}
    (heq : filename [high, low] layerIdx = filename [high', low'] layerIdx') :
    (high = high' ∧ low = low') ∧ layerIdx = layerIdx' := by
  rw [filename_two, filename_two] at heq
  obtain ⟨hhigh, hrest⟩ := decimalInt_append_inj heq
  obtain ⟨hlow, hlayer⟩ := decimalInt_append_inj hrest
  exact ⟨⟨hhigh, hlow⟩, decimalInt_injective (append_cancel_right (append_cancel_left hlayer))⟩

theorem sharedKeySvPath_eq (uuid : Uuid) (layerIdx : Int) (basePath : Bytes) :
    sharedKeySvPath uuid layerIdx basePath = directoryOf basePath ++ filename uuid layerIdx := by
  simp only [sharedKeySvPath, filename, uuidTensorToPathId_eq, append_assoc, keySvSuffix]

theorem directoryOf_sharedKeySvPath (uuid : Uuid) (layerIdx : Int)
    (basePath : Bytes) : directoryOf (sharedKeySvPath uuid layerIdx basePath) =
      directoryOf basePath := by
  rw [sharedKeySvPath_eq]
  exact directoryOf_append (directoryOf_cases basePath) (slash_not_mem_filename uuid layerIdx)

theorem sharedKeySvPath_two_iff
    (high low high' low' layerIdx layerIdx' : Int) (base base' : Bytes) :
    sharedKeySvPath [high, low] layerIdx base = sharedKeySvPath [high', low'] layerIdx' base' ↔
      (high = high' ∧ low = low') ∧ layerIdx = layerIdx' ∧
        directoryOf base = directoryOf base' := by
  constructor
  · intro heq
    have hdirectory := congrArg directoryOf heq
    rw [directoryOf_sharedKeySvPath, directoryOf_sharedKeySvPath] at hdirectory
    rw [sharedKeySvPath_eq, sharedKeySvPath_eq, hdirectory] at heq
    obtain ⟨hwords, hlayer⟩ := filename_two_injective (append_cancel_left heq)
    exact ⟨hwords, hlayer, hdirectory⟩
  · rintro ⟨⟨rfl, rfl⟩, rfl, hdirectory⟩
    rw [sharedKeySvPath_eq, sharedKeySvPath_eq, hdirectory]

/-- Both sides build one name exactly for the normal base paths, and a name of
two words gives back the words, the layer and the directory. -/
theorem sharedKeySvPath_agrees_iff (uuid : Bytes) (layerIdx : Int) (base : Bytes) :
    (sharedKeySvPath (uuidStringToTensor uuid) layerIdx base =
        getSharedKeySvFilename (uuidToTensor uuid) layerIdx base ↔
      NormalBase base) ∧
    ∀ (high low high' low' other : Int) (base' : Bytes), sharedKeySvPath [high, low] layerIdx base =
        sharedKeySvPath [high', low'] other base' ↔
      (high = high' ∧ low = low') ∧ layerIdx = other ∧ directoryOf base = directoryOf base' := by
  constructor
  · rw [sharedKeySvPath_eq, getSharedKeySvFilename_eq, uuidToTensor_eq,
      append_cancel_right_eq, directoryOf_eq_iff]
  · intro high low high' low' other base'
    exact sharedKeySvPath_two_iff high low high' low' layerIdx other base base'

/-- A base path that ends in a slash names one directory more on the native
side. -/
theorem not_sharedKeySvPath_agrees_slash :
    sharedKeySvPath (uuidStringToTensor (ascii "g")) 3 (ascii "kv/a/") ≠
      getSharedKeySvFilename (uuidToTensor (ascii "g")) 3 (ascii "kv/a/") := by
  decide

end SharedPaths
end CatKV
