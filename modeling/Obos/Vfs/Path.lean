import Mathlib.Data.List.TakeWhile
import Mathlib.Data.List.DropRight
import Mathlib.Data.List.Infix
import Mathlib.Data.BitVec
import Mathlib.Data.Nat.Digits.Lemmas

/-!
# Paths

Paths are C strings, given by the bytes in front of their zero. `dividePathToTokens` cuts a
path at its slashes, and `pathStrcmp` compares two paths part by part, so that slashes at
either end do not matter; `path_segments` says that it decides whether two paths have the
same parts.

`strlen` also stops at a byte that is one, since it hands its second flag to
`strCountToChar` inverted.
-/

namespace Obos.Vfs

open List Option

/-- The bytes of a C string in front of its terminating zero. -/
abbrev CString := List (BitVec 8)

/-- The bytes of a text. -/
def bytes (s : String) : CString := s.toList.map fun c => BitVec.ofNat 8 c.toNat

/-- The character `'/'`. -/
def slash : BitVec 8 := 0x2f

/-- `utils::strCountToChar`. -/
def strCountToChar (s : CString) (ch : BitVec 8) : Nat := (s.takeWhile (· ≠ ch)).length

/-- `utils::strlen`. -/
def strlen (s : CString) : Nat := strCountToChar s 1

/-- What is copied of a string with its length. -/
def copied (s : CString) : CString := s.take (strlen s)

/-- `utils::strcmp`: the lengths are compared, and then the bytes of the first string. -/
def strcmp (str1 str2 : CString) : Bool := strlen str1 = strlen str2 && str1.isPrefixOf str2

/-- The slashes in front of the end of a string, as far as `strlen` sees it. -/
def trailingSlashes (filepath : CString) : Nat :=
  ((copied filepath).reverse.takeWhile (· = slash)).length

/-- `nTokens`, as the two loops in front count it. -/
def nTokens (filepath : CString) : Nat := 1 + filepath.count slash - trailingSlashes filepath

/-- The loop that fills the tokens, with the bytes that are left and the number of tokens that are
missing. There is one at index 0, and one behind each slash. -/
def fillTokens (atZero : Bool) : CString → Nat → List CString
  | [], _ | _, 0 => []
  | b :: rest, n + 1 =>
    if b = slash ∨ atZero then
      let start := if atZero then b :: rest else rest
      start.take (strCountToChar start slash) :: fillTokens false rest n
    else fillTokens false rest (n + 1)

/-- `dividePathToTokens`. A path that has no length is searched for slashes in front of its first
byte. -/
def dividePathToTokens (filepath : CString) : Option (List CString) :=
  let filepath := filepath.dropWhile (· = slash)
  if strlen filepath = 0 then none else some (fillTokens true filepath (nTokens filepath))

/-- `pathStrcmp`. -/
def pathStrcmp (p1 p2 : CString) : Option Bool := do
  let p1Tok ← dividePathToTokens (p1.dropWhile (· = slash))
  let p2Tok ← dividePathToTokens (p2.dropWhile (· = slash))
  return p1Tok.length = p2Tok.length && (p1Tok.zip p2Tok).all fun t => strcmp t.1 t.2

/-- The character `':'`. -/
def colon : BitVec 8 := 0x3a

/-- The character `'P'`. -/
def capitalP : BitVec 8 := 0x50

/-- `getMountId`: the number in front of a colon, or of the given size. Any character counts as a
digit. -/
def getMountId (path : CString) (size : Nat) : BitVec 32 :=
  let size := if size = 0 then strCountToChar path colon else size
  let path := if path.head? = some 0x0a then path.drop 1 else path
  ((path ++ [0]).take size).foldl (fun ret (c : BitVec 8) => ret * 10 + (c.signExtend 32 - 48)) 0

/-- The decimal digits of a number. -/
def decimalDigits (n : Nat) : CString :=
  if n = 0 then [48] else (Nat.digits 10 n).reverse.map fun k => BitVec.ofNat 8 (48 + k)

/-- What `%d` prints for an id: a signed number. -/
def printDecimal (id : BitVec 32) : CString :=
  if id.msb then 45 :: decimalDigits (2 ^ 32 - id.toNat) else decimalDigits id.toNat

/-- The parts of a path between its slashes, without the slashes at its two ends. -/
def segments (path : CString) : List CString :=
  ((path.dropWhile (· = slash)).rdropWhile (· = slash)).splitOn slash

/-! ## Names -/

/-- One part of a path. -/
structure IsComponent (name : CString) : Prop where
  nonempty : name ≠ []
  no_slash : slash ∉ name

/-- A part of a path that `strlen` sees to its end. -/
structure IsName (name : CString) : Prop extends IsComponent name where
  no_one : 1 ∉ name

instance (n : CString) : Decidable (IsComponent n) :=
  decidable_of_iff (n ≠ [] ∧ slash ∉ n) ⟨fun h => ⟨h.1, h.2⟩, fun h => ⟨h.nonempty, h.no_slash⟩⟩

/-- The path with the given names. -/
def joinPath (names : List CString) : CString := [slash].intercalate names

section Names

variable {names other : List CString}

variable (s name : CString)

@[simp] theorem joinPath_singleton : joinPath [name] = name := by
  simp [joinPath]

theorem joinPath_cons_cons (next : CString) (names : List CString) :
    joinPath (name :: next :: names) = name ++ slash :: joinPath (next :: names) := by
  simp [joinPath, intercalate_cons_cons]

/-- A path that is made longer by a name. -/
theorem joinPath_concat (hne : names ≠ []) (name : CString) :
    joinPath (names ++ [name]) = joinPath names ++ slash :: name := by
  induction names with
  | nil => exact absurd rfl hne
  | cons first rest ih =>
    cases rest with
    | nil => simp [joinPath_cons_cons]
    | cons second rest =>
      rw [cons_append, cons_append, joinPath_cons_cons, joinPath_cons_cons,
        ← cons_append, ih (cons_ne_nil _ _)]
      simp

section

variable (hnames : ∀ n ∈ names, IsName n)
include hnames

omit hnames in
/-- A path does not begin with a slash. -/
theorem joinPath_eq_cons (hnames : ∀ n ∈ names, IsComponent n) (hne : names ≠ []) :
    ∃ b rest, joinPath names = b :: rest ∧ b ≠ slash := by
  obtain ⟨first, rest, rfl⟩ := exists_cons_of_ne_nil hne
  have hfirst := hnames first mem_cons_self
  obtain ⟨b, bs, rfl⟩ := exists_cons_of_ne_nil hfirst.nonempty
  have hb : b ≠ slash := fun h => hfirst.no_slash (h ▸ mem_cons_self)
  cases rest with
  | nil => exact ⟨b, bs, by simp, hb⟩
  | cons second rest => exact ⟨b, _, by rw [joinPath_cons_cons, cons_append], hb⟩

/-- A path of names does not end with a slash. -/
theorem joinPath_eq_concat (hne : names ≠ []) :
    ∃ rest b, joinPath names = rest ++ [b] ∧ b ≠ slash := by
  obtain rfl | ⟨front, last, rfl⟩ := eq_nil_or_concat names
  · exact absurd rfl hne
  have hlast := hnames last (by simp)
  obtain h | ⟨bs, b, rfl⟩ := eq_nil_or_concat last
  · exact absurd h hlast.nonempty
  have hb : b ≠ slash := fun h => hlast.no_slash (by simp [h])
  by_cases hfront : front = []
  · exact ⟨bs, b, by simp [hfront], hb⟩
  · exact ⟨joinPath front ++ slash :: bs, b, by
      rw [concat_eq_append, joinPath_concat hfront]; simp, hb⟩

/-- No byte of a path is one if none of its names has it. -/
theorem one_notMem_joinPath : 1 ∉ joinPath names := by
  induction names with
  | nil => simp [joinPath]
  | cons first rest ih =>
    have hfirst := (hnames first mem_cons_self).no_one
    have hrest := ih fun n hn => hnames n (mem_cons_of_mem _ hn)
    cases rest with
    | nil => simpa using hfirst
    | cons second rest =>
      rw [joinPath_cons_cons, mem_append, mem_cons]
      rintro (h | h | h)
      · exact hfirst h
      · cases h
      · exact hrest h

theorem one_notMem_append (k : Nat) : 1 ∉ joinPath names ++ replicate k slash := by
  rw [mem_append, mem_replicate]
  rintro (h | ⟨-, h⟩)
  · exact one_notMem_joinPath hnames h
  · cases h

end

theorem strCountToChar_append {s t : CString} {c : BitVec 8} (hs : c ∉ s) :
    strCountToChar (s ++ c :: t) c = s.length := by
  rw [strCountToChar, takeWhile_append_of_pos, takeWhile_cons_of_neg (by simp),
    append_nil]
  intro b hb
  have hne : b ≠ c := fun heq => hs (heq ▸ hb)
  simpa using hne

theorem strlen_eq_length {s : CString} (h : 1 ∉ s) : strlen s = s.length := by
  rw [strlen, strCountToChar, takeWhile_eq_self_iff.2]
  intro b hb
  have hne : b ≠ 1 := fun he => h (he ▸ hb)
  simpa using hne

theorem copied_eq {s : CString} (h : 1 ∉ s) : copied s = s := by
  rw [copied, strlen_eq_length h, take_length]

theorem copied_eq_takeWhile : copied s = s.takeWhile (· ≠ 1) :=
  (prefix_iff_eq_take.1 (List.takeWhile_prefix _)).symm

theorem one_notMem_copied : 1 ∉ copied s := by
  intro hmem
  rw [copied_eq_takeWhile] at hmem
  simpa using mem_takeWhile_imp hmem

/-- `strcmp` with a string without that byte. -/
theorem strcmp_eq {t : CString} (ht : 1 ∉ t) : strcmp s t = decide (s = t) := by
  by_cases h : s = t
  · subst h
    simp [strcmp]
  · rw [decide_eq_false h, strcmp, Bool.and_eq_false_iff, decide_eq_false_iff_not,
      ← Bool.not_eq_true, List.isPrefixOf_iff_prefix, ← not_and_or]
    rintro ⟨hlen, hst⟩
    rw [strlen_eq_length ht, strlen_eq_length fun hs => ht (hst.subset hs)] at hlen
    exact h (hst.eq_of_length hlen)

theorem dropWhile_joinPath (hne : names ≠ []) (hnames : ∀ n ∈ names, IsComponent n) (s : CString) :
    (joinPath names ++ s).dropWhile (· = slash) = joinPath names ++ s := by
  obtain ⟨b, rest, heq, hb⟩ := joinPath_eq_cons hnames hne
  rw [heq, cons_append, dropWhile_cons_of_neg (by simpa using hb)]

/-- Slashes at the end are empty parts at the end. -/
theorem splitOn_append_replicate (k : Nat) :
    (s ++ replicate k slash).splitOn slash = s.splitOn slash ++ replicate k [] := by
  induction k with
  | zero => simp
  | succ k ih =>
    rw [replicate_succ', ← append_assoc, splitOn_append_cons_self, ih,
      replicate_succ', append_assoc, splitOn_nil]

/-- A path has one slash between any two of its parts. -/
theorem length_splitOn_slash : (s.splitOn slash).length = 1 + s.count slash := by
  induction s with
  | nil => simp
  | cons b s ih =>
    rw [splitOn_cons_eq_if_modifyHead, count_cons]
    split <;> simp only [length_cons, length_modifyHead, ih] <;> omega

/-- A path is divided at its slashes. -/
theorem splitOn_joinPath (hne : names ≠ []) (hnames : ∀ n ∈ names, IsComponent n) (k : Nat) :
    (joinPath names ++ replicate k slash).splitOn slash = names ++ replicate k [] := by
  rw [splitOn_append_replicate, joinPath,
    splitOn_intercalate slash (fun n hn => (hnames n hn).no_slash) hne]

/-- The slashes in front of the end are the ones behind the last part. -/
theorem rdropWhile_append_trailing {s : CString} (h : 1 ∉ s) :
    s.rdropWhile (· = slash) ++ replicate (trailingSlashes s) slash = s := by
  have htail : s.rtakeWhile (· = slash) = replicate (trailingSlashes s) slash := by
    rw [trailingSlashes, copied_eq h]
    exact eq_replicate_iff.2
      ⟨length_reverse, fun b hb => by simpa using mem_rtakeWhile_imp hb⟩
  rw [← htail, rdropWhile_append_rtakeWhile]

/-- The number of tokens is that of the parts in front of the slashes at the end. -/
theorem nTokens_eq {s : CString} (h : 1 ∉ s) :
    nTokens s = ((s.rdropWhile (· = slash)).splitOn slash).length := by
  have hcount := congrArg (count slash) (rdropWhile_append_trailing h)
  rw [count_append, count_replicate_self] at hcount
  rw [nTokens, length_splitOn_slash]
  omega

/-- What is copied to a token is the first part of what is left. -/
theorem splitOn_eq_cons : s.splitOn slash =
    s.take (strCountToChar s slash) :: (s.splitOn slash).tail := by
  induction s with
  | nil => simp [strCountToChar]
  | cons b s ih =>
    rw [splitOn_cons_eq_if_modifyHead]
    by_cases hb : b = slash
    · simp [hb, strCountToChar]
    · rw [if_neg (by simpa using hb), ih]
      simp [strCountToChar, hb]

/-- Behind index 0 every slash begins a token. -/
theorem fillTokens_false (n : Nat) : fillTokens false s n = (s.splitOn slash).tail.take n := by
  induction s generalizing n with
  | nil => simp [fillTokens]
  | cons b s ih =>
    cases n with
    | zero => simp [fillTokens]
    | succ n =>
      rw [splitOn_cons_eq_if_modifyHead]
      by_cases hb : b = slash
      · have hparts := congrArg (take (n + 1)) (splitOn_eq_cons s)
        simp [fillTokens, hb, ih, hparts]
      · simp [fillTokens, hb, ih]

/-- The tokens are the first parts of the path, as many as the two loops in front have counted. -/
theorem dividePathToTokens_splitOn (path : CString) : dividePathToTokens path =
    let filepath := path.dropWhile (· = slash)
    if strlen filepath = 0 then none
    else some ((filepath.splitOn slash).take (nTokens filepath)) := by
  rw [dividePathToTokens]
  cases hpath : path.dropWhile (· = slash) with
  | nil => rfl
  | cons b rest =>
    have hb : b ≠ slash := by
      have hhead := head_dropWhile_not (· = slash) (l := path) (by simp [hpath])
      simpa [hpath] using hhead
    have hfill n : fillTokens true (b :: rest) n = ((b :: rest).splitOn slash).take n := by
      cases n with
      | zero => simp [fillTokens]
      | succ n =>
        rw [splitOn_eq_cons, take_succ_cons, splitOn_cons_eq_if_modifyHead]
        simp [fillTokens, hb, fillTokens_false]
    simp only [hfill]

/-- The tokens of a path are its parts. -/
theorem dividePathToTokens_eq {path : CString} (hone : 1 ∉ path) (hne : ∃ b ∈ path, b ≠ slash) :
    dividePathToTokens path = some (segments path) := by
  have hrest : 1 ∉ path.dropWhile (· = slash) := fun h => hone (dropWhile_subset _ h)
  have hlength : (path.dropWhile (· = slash)).length ≠ 0 := by
    simpa [dropWhile_eq_nil_iff] using hne
  rw [dividePathToTokens_splitOn, segments]
  simp only [strlen_eq_length hrest, if_neg hlength, nTokens_eq hrest]
  nth_rewrite 2 [← rdropWhile_append_trailing hrest]
  rw [splitOn_append_replicate, take_left]

/-- The slashes in front of the end are among all slashes. -/
theorem trailingSlashes_le : trailingSlashes s ≤ s.count slash := by
  have hall : ∀ b ∈ (copied s).reverse.takeWhile (· = slash), slash = b := fun b hb => by
    simpa [eq_comm] using mem_takeWhile_imp hb
  rw [trailingSlashes, ← count_eq_length.2 hall]
  calc _ ≤ (copied s).reverse.count slash := (takeWhile_sublist _).count_le _
    _ = (copied s).count slash := count_reverse
    _ ≤ s.count slash := (take_sublist _ _).count_le _

/-- The tokens of a path are the first ones of its names. -/
theorem dividePathToTokens_take (hne : names ≠ []) (hnames : ∀ n ∈ names, IsComponent n) {k : Nat}
    {tokens : List CString}
    (h : dividePathToTokens (joinPath names ++ replicate k slash) = some tokens) :
    ∃ n, 0 < n ∧ tokens = (names ++ replicate k []).take n := by
  simp only [dividePathToTokens_splitOn, dropWhile_joinPath hne hnames,
    splitOn_joinPath hne hnames] at h
  split at h
  · cases h
  · have hle := trailingSlashes_le (joinPath names ++ replicate k slash)
    exact ⟨_, by unfold nTokens; omega, (some.inj h).symm⟩

theorem dividePathToTokens_dropWhile (path : CString) :
    dividePathToTokens (path.dropWhile (· = slash)) = dividePathToTokens path := by
  rw [dividePathToTokens, dividePathToTokens, dropWhile_idempotent]

/-- The tokens of a path are its names. -/
theorem dividePathToTokens_join (hne : names ≠ []) (hnames : ∀ n ∈ names, IsName n) (k : Nat) :
    dividePathToTokens (joinPath names ++ replicate k slash) = some names := by
  have hcomponents n hn := (hnames n hn).toIsComponent
  obtain ⟨b, tail, hcons, hfirst⟩ := joinPath_eq_cons hcomponents hne
  rw [dividePathToTokens_eq (one_notMem_append hnames k) ⟨b, by simp [hcons], hfirst⟩, segments,
    dropWhile_joinPath hne hcomponents]
  obtain ⟨rest, last, hconcat, hlast⟩ := joinPath_eq_concat hnames hne
  have hdrop : (joinPath names ++ replicate k slash).rdropWhile (· = slash) =
      joinPath names := by
    rw [rdropWhile, reverse_append, reverse_replicate,
      dropWhile_append_of_pos (by simp), hconcat, reverse_concat,
      dropWhile_cons_of_neg (by simpa using hlast), ← reverse_concat,
      reverse_reverse]
  have hsplit := splitOn_joinPath hne hcomponents 0
  simp only [replicate_zero, append_nil] at hsplit
  rw [hdrop, hsplit]

/-- Comparing tokens is comparing names. -/
theorem all_strcmp (hother : ∀ n ∈ other, 1 ∉ n) :
    (names.length = other.length && (names.zip other).all fun t => strcmp t.1 t.2) =
      decide (names = other) := by
  induction names generalizing other with
  | nil => cases other <;> simp
  | cons first rest ih =>
    cases other with
    | nil => simp
    | cons first' rest' =>
      have hrest := ih fun n hn => hother n (mem_cons_of_mem _ hn)
      have hfirst := strcmp_eq first (hother first' mem_cons_self)
      simp only [length_cons, Nat.add_right_cancel_iff, zip_cons_cons, all_cons,
        hfirst, cons.injEq, Bool.decide_and, ← hrest]
      exact Bool.and_left_comm _ _ _

/-- `pathStrcmp` compares the names of two paths. -/
theorem pathStrcmp_join (hnames : ∀ n ∈ names, IsName n) (hne : names ≠ [])
    (hother : ∀ n ∈ other, IsName n) (hne' : other ≠ []) (k l : Nat) :
    pathStrcmp (joinPath names ++ replicate k slash)
      (joinPath other ++ replicate l slash) = some (decide (names = other)) := by
  have hnames' n hn := (hnames n hn).toIsComponent
  have hother' n hn := (hother n hn).toIsComponent
  simp only [pathStrcmp, dropWhile_joinPath hne hnames', dropWhile_joinPath hne' hother',
    dividePathToTokens_join hne hnames, dividePathToTokens_join hne' hother, bind, bind_some,
    all_strcmp fun n hn => (hother n hn).no_one, pure]

/-- A name that is longer than every component of a path is not found equal to it. -/
theorem pathStrcmp_ne_of_length {name : CString} (hname : IsName name) (hne : names ≠ [])
    (hnames : ∀ n ∈ names, IsComponent n) (hlong : ∀ n ∈ names, n.length < name.length) :
    pathStrcmp name (joinPath names) ≠ some true := by
  intro h
  have hown : dividePathToTokens (name.dropWhile (· = slash)) = some [name] := by
    have hjoin := dividePathToTokens_join (cons_ne_nil name [])
      (forall_mem_singleton.2 hname) 0
    have hdrop := dropWhile_joinPath (cons_ne_nil name [])
      (forall_mem_singleton.2 hname.toIsComponent) []
    simp only [joinPath_singleton, replicate_zero, append_nil] at hjoin hdrop
    rw [hdrop, hjoin]
  have hdrop := dropWhile_joinPath hne hnames []
  rw [append_nil] at hdrop
  simp only [pathStrcmp, hown, hdrop, bind, bind_some, pure] at h
  obtain ⟨tokens, htokens, heq⟩ := bind_eq_some_iff.1 h
  obtain ⟨n, -, rfl⟩ := dividePathToTokens_take (k := 0) hne hnames (by simpa using htokens)
  -- there is one token, and it is as long as the name
  rw [some.injEq, Bool.and_eq_true, decide_eq_true_eq] at heq
  obtain ⟨token, htoken⟩ := length_eq_one_iff.1 heq.1.symm
  have hmem : token ∈ names := by
    have := mem_of_mem_take (htoken ▸ mem_singleton_self token)
    simpa using this
  rw [htoken] at heq
  have hcmp : strcmp name token = true := by
    simpa using heq.2
  rw [strcmp, Bool.and_eq_true, decide_eq_true_eq, strlen_eq_length hname.no_one] at hcmp
  have hle : strlen token ≤ token.length := (takeWhile_sublist _).length_le
  have := hlong token hmem
  omega

end Names

/-- For paths with a byte other than the slash, whose lengths are found right: the tokens are the
parts of the path, `nTokens` is their number, and `pathStrcmp` decides whether the parts are
equal. -/
theorem path_segments {p q : CString} (hp : strlen p = p.length) (hq : strlen q = q.length)
    (hp' : ∃ b ∈ p, b ≠ slash) (hq' : ∃ b ∈ q, b ≠ slash) :
    dividePathToTokens p = some (segments p) ∧
    nTokens (p.dropWhile (· = slash)) = (segments p).length ∧
    pathStrcmp p q = some (decide (segments p = segments q)) := by
  have hone {s : CString} (hs : strlen s = s.length) : 1 ∉ s := fun hmem => by
    have hcopied : copied s = s := by rw [copied, hs, take_length]
    exact one_notMem_copied s (by rwa [hcopied])
  -- the parts are made of bytes of the path
  have hno : ∀ n ∈ segments q, 1 ∉ n := by
    intro n hn hmem
    obtain ⟨i, hi⟩ := mem_iff_getElem?.1 hn
    have hjoin : 1 ∈ [slash].intercalate (segments q) := mem_flatten_of_mem
      (mem_of_getElem? (getElem?_intersperse_two_mul.trans hi)) hmem
    rw [segments, intercalate_splitOn] at hjoin
    exact hone hq (dropWhile_subset _ ((List.rdropWhile_prefix _ _).subset hjoin))
  have htokens := dividePathToTokens_eq (hone hp) hp'
  refine ⟨htokens, nTokens_eq fun h => hone hp (dropWhile_subset _ h), ?_⟩
  simp only [pathStrcmp, dividePathToTokens_dropWhile, htokens, dividePathToTokens_eq (hone hq) hq',
    bind, bind_some, all_strcmp hno, pure]

theorem path_segments_ends :
    dividePathToTokens (bytes "//ab//c/") = some [bytes "ab", [], bytes "c"] ∧
    pathStrcmp (bytes "//ab//c/") (bytes "ab/c") = some false := by
  obtain ⟨htokens, -, hcmp⟩ := path_segments (p := bytes "//ab//c/") (q := bytes "ab/c")
    (by decide) (by decide) (by decide) (by decide)
  exact ⟨htokens, hcmp⟩

end Obos.Vfs
