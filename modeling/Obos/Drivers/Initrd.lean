import Obos.Vfs.MountTree

/-!
# The initrd driver

The driver answers for the files of the archive from a list of cached entries. Its lookup reads
through the null pointer behind the last entry when there is none with the path, and the bound
of a read is a sum that wraps; `answers_iff` says for which requests the answers are right.
-/

namespace Obos.Initrd

open Option

open Vfs (CString strcmp strcmp_eq fileDoesntExist)

/-- The `ustarEntryCache` of an entry, with the entry's path. -/
structure UstarEntryCache where
  path : CString
  entryFilesize : BitVec 64
  entryAttributes : BitVec 32
  dataStart : BitVec 64

/-- `GetCacheForPath`: `none` is the access through the null pointer, and no cache is a null
result. -/
def getCacheForPath (caches : List UstarEntryCache) (path : CString) :
    Option (Option UstarEntryCache) :=
  (caches.find? fun cache => strcmp path cache.path).map some

/-- `GetFileAttribute`: the result, the size and the attributes. -/
def getFileAttribute (caches : List UstarEntryCache) (filepath : CString) :
    Option (Bool × BitVec 64 × BitVec 32) := do
  match ← getCacheForPath caches filepath with
  | none => return (false, 0, fileDoesntExist)
  | some entry => return (true, entry.entryFilesize, entry.entryAttributes)

/-- `QueryFileProperties`. -/
def queryFileProperties (caches : List UstarEntryCache) (path : CString) :
    Option (Bool × BitVec 64 × BitVec 32) := do
  let (found, size, fAttribs) ← getFileAttribute caches path
  if !found then return (false, 0, fileDoesntExist)
  return (true, size, fAttribs)

/-- `ReadFile`: the result, and the bytes copied to the buffer if there is one. -/
def readFile (memory : BitVec 64 → BitVec 8) (caches : List UstarEntryCache) (path : CString)
    (nToSkip nToRead : BitVec 64) (buff : Bool) : Option (Bool × List (BitVec 8)) := do
  match ← getCacheForPath caches path with
  | none => return (false, [])
  | some cache =>
    if nToSkip ≥ cache.entryFilesize then return (false, [])
    if nToSkip + nToRead > cache.entryFilesize then return (false, [])
    if !buff then return (true, [])
    return (true, (List.range nToRead.toNat).map fun i =>
      memory (cache.dataStart + nToSkip + BitVec.ofNat 64 i))

variable (memory : BitVec 64 → BitVec 8) {caches : List UstarEntryCache} (path : CString)
  (nToSkip nToRead : BitVec 64) (buff : Bool)

/-- The file with a path. -/
def fileAt (caches : List UstarEntryCache) (path : CString) : Option UstarEntryCache :=
  caches.find? fun file => path = file.path

/-- The byte of a file at an offset. -/
def UstarEntryCache.byte (file : UstarEntryCache) (i : Nat) : BitVec 8 :=
  memory (file.dataStart + BitVec.ofNat 64 i)

theorem readFile_eq_true_iff {file : UstarEntryCache}
    (h : getCacheForPath caches path = some (some file)) (copied : List (BitVec 8)) :
    readFile memory caches path nToSkip nToRead buff = some (true, copied) ↔
      nToSkip < file.entryFilesize ∧ nToSkip + nToRead ≤ file.entryFilesize ∧
        copied = if buff then (List.range nToRead.toNat).map fun i =>
          file.byte memory (nToSkip.toNat + i) else [] := by
  have hbyte (i : Nat) : file.byte memory (nToSkip.toNat + i) =
      memory (file.dataStart + nToSkip + BitVec.ofNat 64 i) := by
    simp [UstarEntryCache.byte, BitVec.ofNat_add, BitVec.add_assoc]
  simp only [readFile, h, bind_eq_bind, bind_some, hbyte]
  split_ifs <;> grind

/-- Both functions fail for a path that is not in the archive, and what is read lies in the file
and is copied from there. -/
structure Answers (caches : List UstarEntryCache) : Prop where
  absent : fileAt caches path = none →
    (∃ info, queryFileProperties caches path = some (false, info)) ∧
      ∃ copied, readFile memory caches path nToSkip nToRead buff = some (false, copied)
  read : ∀ copied, readFile memory caches path nToSkip nToRead buff = some (true, copied) →
    ∃ file, fileAt caches path = some file ∧
      nToSkip.toNat + nToRead.toNat ≤ file.entryFilesize.toNat ∧ (buff = true →
        copied = (List.range nToRead.toNat).map fun i => file.byte memory (nToSkip.toNat + i))

/-- A read that starts inside of the file, and whose end wraps and is inside again. -/
def Wraps (file : UstarEntryCache) : Prop :=
  nToSkip < file.entryFilesize ∧ 2 ^ 64 ≤ nToSkip.toNat + nToRead.toNat ∧
    nToSkip + nToRead ≤ file.entryFilesize

/-- Where `strlen` finds the ends of the paths, the answers are right for the requests that name
a file and do not wrap. -/
theorem answers_iff (hplain : ∀ cache ∈ caches, 1 ∉ cache.path) :
    Answers memory path nToSkip nToRead buff caches ↔
      ∃ file, fileAt caches path = some file ∧ ¬Wraps nToSkip nToRead file := by
  have hfind : getCacheForPath caches path = (fileAt caches path).map some := by
    induction caches with
    | nil => rfl
    | cons cache caches ih =>
      have heq := strcmp_eq path (hplain cache (.head _))
      by_cases h : path = cache.path <;> simp_all [getCacheForPath, fileAt]
  cases hfile : fileAt caches path with
  | none =>
    have hquery : queryFileProperties caches path = none := by
      simp [queryFileProperties, getFileAttribute, hfind, hfile]
    constructor
    · intro h
      obtain ⟨⟨info, hinfo⟩, -⟩ := h.absent hfile
      simp [hquery] at hinfo
    · simp
  | some file =>
    have hread := readFile_eq_true_iff memory path nToSkip nToRead buff
      (hfind.trans (congrArg _ hfile))
    simp only [some.injEq, exists_eq_left']
    constructor
    · intro h hw
      obtain ⟨f, -, hle, -⟩ := h.read _ ((hread _).2 ⟨hw.1, hw.2.2, rfl⟩)
      have := hw.2.1
      omega
    · intro hw
      refine ⟨fun hn => by simp [hfile] at hn, fun copied hc => ⟨file, hfile, ?_⟩⟩
      obtain ⟨hskip, hsum, rfl⟩ := (hread _).1 hc
      refine ⟨?_, fun hbuff => if_pos hbuff⟩
      have hfits : nToSkip.toNat + nToRead.toNat < 2 ^ 64 := by
        by_contra hover
        exact hw ⟨hskip, by omega, hsum⟩
      rwa [← BitVec.toNat_add_of_lt hfits]

/-- An archive with a file `a` of three bytes. -/
def oneFile : List UstarEntryCache := [⟨[0x61], 3, 17, 0x1200⟩]

theorem answers_inside : Answers (fun _ => 0) [0x61] 1 2 true oneFile :=
  (answers_iff _ [0x61] 1 2 true (by decide)).2 ⟨_, rfl, by simp [Wraps]⟩

/-- The lookup of `b` is an access through the null pointer, and `2 ^ 64 - 1` bytes are read at
the offset two. -/
theorem not_answers_absent_or_wrapping :
    ¬Answers (fun _ => 0) [0x62] 0 1 false oneFile ∧
      ¬Answers (fun _ => 0) [0x61] 2 (-1) false oneFile := by
  constructor
  · intro h
    obtain ⟨⟨info, hinfo⟩, -⟩ := h.absent rfl
    cases hinfo
  · intro h
    obtain ⟨file, hfile, hle, -⟩ := h.read [] rfl
    cases hfile
    exact absurd hle (by decide)

end Obos.Initrd
