import Obos.Boot.Lexer

/-!
# Parsing the configuration file

`Parser::Parse` makes an element for every token of data the lexer finds: an integer, an
array, a boolean or a string. The elements of an array are between commas, the last of them
ends in front of a space or a bracket; if there is none, its length is not initialized.

`parse_depends_only_iff` says for which buffers the outcome is determined by the bytes of the
buffer, whatever follows them in memory.
-/

namespace Obos.Boot

open Vfs List
open LexState (push)
open Option (bind_eq_some_iff isSome_iff_exists map_eq_some_iff)

/-! ## The program -/

/-- The character `','`. -/
def comma : BitVec 8 := 0x2c

/-- The character `'['`. -/
def leftBracket : BitVec 8 := 0x5b

/-- The character `']'`. -/
def rightBracket : BitVec 8 := 0x5d

/-- The character `'"'`. -/
def quotation : BitVec 8 := 0x22

/-- `Element`. -/
inductive Element where
  | invalid
  | string (s : CString)
  | array (elements : List Element)
  | integer (n : BitVec 64)
  | boolean (b : Bool)

/-- `integerType`, without the invalid one. -/
inductive IntegerType where
  | decimal
  | hex
  deriving DecidableEq

/-- A decimal digit. -/
def isDigit (ch : BitVec 8) : Bool := 0x30 ≤ ch && ch ≤ 0x39

/-- A hexadecimal digit. -/
def isHexDigit (ch : BitVec 8) : Bool :=
  isDigit ch || (0x41 ≤ ch && ch ≤ 0x46) || (0x61 ≤ ch && ch ≤ 0x66)

/-- `strToIntegerType` of a token with what is behind it in memory. The length of a token that is
shorter than the prefix wraps around, and the search ends at the zero. -/
def strToIntegerType (contents behind : CString) : Option IntegerType :=
  if (contents ++ behind).take 2 = bytes "0x" then
    if 2 ≤ contents.length ∧ (contents.drop 2).all isHexDigit then some .hex else none
  else if contents.all isDigit then some .decimal else none

/-- The value of a hexadecimal digit; any other character counts as zero. -/
def hexValue (ch : BitVec 8) : BitVec 64 :=
  if isDigit ch then (ch - 0x30).setWidth 64
  else if 0x41 ≤ ch ∧ ch ≤ 0x46 then (ch - 0x41 + 10).setWidth 64
  else if 0x61 ≤ ch ∧ ch ≤ 0x66 then (ch - 0x61 + 10).setWidth 64
  else 0

/-- `hex2bin`, whose loop begins at a signed index. -/
def hex2bin (str : CString) : BitVec 64 :=
  let size := str.length % 2 ^ 32
  if 2 ^ 31 < size then 0
  else (str.take size).reverse.zipIdx.foldl
    (fun ret c => ret ||| hexValue c.1 <<< (c.2 * 4 % 64)) 0

/-- `dec2bin`. -/
def dec2bin (str : CString) : BitVec 64 :=
  str.foldl (fun ret c => if isDigit c then ret * 10 + (c - 0x30).setWidth 64 else ret) 0

/-- The length of the last element of an array, if it is set. -/
def lastLen (inQuotations : Bool) : CString → Option Nat
  | [] => none
  | c :: cs =>
    if isWhitespace c && !inQuotations then some 0
    else if c = rightBracket then some 0
    else (lastLen (if c = quotation then !inQuotations else inQuotations) cs).map (· + 1)

/-- The elements the loop over an array extracts: what is left of the token at each of them, and the
length that is assigned, if there is one. -/
def extracted (nElements currentElement : Nat) : CString → List (CString × Option Nat)
  | [] => []
  | b :: bs =>
    if isWhitespace b then extracted nElements currentElement bs
    else if b = rightBracket then []
    else if b = leftBracket then extracted nElements currentElement bs
    else if currentElement = nElements then []
    else
      let len := if currentElement + 1 = nElements then lastLen false (b :: bs)
        else some (strCountToChar (b :: bs) comma)
      (b :: bs, len) :: match len with
        | none => []
        | some len => extracted nElements (currentElement + 1) (bs.drop len)
termination_by s => s.length

/-- All of them, if none is missing. -/
def collect {α : Type} : List (Option α) → Option (List α)
  | [] => some []
  | e :: es => e.bind fun e => (collect es).map (e :: ·)

/-- The elements that are extracted, if their lengths are all assigned. -/
def arrayTokens (nElements currentElement : Nat) (s : CString) : Option (List CString) :=
  collect ((extracted nElements currentElement s).map fun t => t.2.map t.1.take)

section Extracted

variable {n k len : Nat} {s : CString}

theorem lastLen_le {inQuotations : Bool} (h : lastLen inQuotations s = some len) :
    len ≤ s.length := by
  induction s generalizing inQuotations len with
  | nil => cases h
  | cons c cs ih =>
    rw [lastLen] at h
    split at h
    · cases h
      exact Nat.zero_le _
    split at h
    · cases h
      exact Nat.zero_le _
    · obtain ⟨len', hlen', rfl⟩ := map_eq_some_iff.1 h
      exact Nat.succ_le_succ (ih hlen')

/-- The elements are parts of the token, and their lengths do not exceed it. -/
theorem extracted_inside {t : CString × Option Nat} (h : t ∈ extracted n k s) :
    t.1 <:+ s ∧ ∀ len ∈ t.2, len ≤ t.1.length := by
  induction k, s using extracted.induct n with
  | case1 k =>
    rw [extracted] at h
    cases h
  | case2 k b bs hspace ih =>
    rw [extracted, if_pos hspace] at h
    exact (ih h).imp_left (·.trans (suffix_cons b bs))
  | case3 k bs hspace =>
    rw [extracted, if_neg hspace, if_pos rfl] at h
    cases h
  | case4 k bs hspace hright ih =>
    rw [extracted, if_neg hspace, if_neg hright, if_pos rfl] at h
    exact (ih h).imp_left (·.trans (suffix_cons _ bs))
  | case5 b bs hspace hright hleft =>
    rw [extracted, if_neg hspace, if_neg hright, if_neg hleft, if_pos rfl] at h
    cases h
  | case6 k b bs hspace hright hleft hall ih =>
    rw [extracted, if_neg hspace, if_neg hright, if_neg hleft, if_neg hall] at h
    rcases mem_cons.1 h with rfl | h
    · refine ⟨suffix_refl _, fun len hlen => ?_⟩
      rw [Option.mem_def] at hlen
      split at hlen
      · exact lastLen_le hlen
      · cases hlen
        exact (List.takeWhile_prefix _).length_le
    · split at h
      · cases h
      · exact (ih _ h).imp_left (·.trans ((drop_suffix _ bs).trans (suffix_cons b bs)))

/-- If none is missing, they are all there. -/
theorem collect_eq_some_iff {α : Type} {es : List (Option α)} {es' : List α} :
    collect es = some es' ↔ es = es'.map some := by
  induction es generalizing es' with
  | nil => cases es' <;> simp [collect]
  | cons e es ih => cases es' <;> cases e <;> simp [collect, ih, and_comm]

theorem collect_isSome_iff {α : Type} {es : List (Option α)} :
    (collect es).isSome = true ↔ ∀ e ∈ es, e.isSome = true := by
  induction es with
  | nil => simp [collect]
  | cons e es ih => cases e <;> simp [collect, ih]

/-- The elements of an array are shorter than it. -/
theorem length_lt_of_mem_arrayTokens {contents behind : CString}
    (hleft : (contents ++ behind).head? = some leftBracket) {tokens : List CString}
    (h : arrayTokens n 0 contents = some tokens) {tok : CString} (htok : tok ∈ tokens) :
    tok.length < contents.length := by
  have hmem := mem_map_of_mem (f := some) htok
  rw [← collect_eq_some_iff.1 h] at hmem
  obtain ⟨t, ht, htok⟩ := mem_map.1 hmem
  obtain ⟨len, -, rfl⟩ := map_eq_some_iff.1 htok
  cases contents with
  | nil =>
    rw [extracted] at ht
    cases ht
  | cons b bs =>
    cases hleft
    rw [extracted, if_neg (by decide), if_neg (by decide), if_pos rfl] at ht
    exact Nat.lt_succ_of_le ((length_take_le' _ _).trans (extracted_inside ht).1.length_le)

end Extracted

/-- `ProcessDataToken`: a token with what is behind it in memory. -/
def processDataToken (stale : Nat → CString) (contents behind : CString) : Option Element :=
  match strToIntegerType contents behind with
  | some .hex => some (.integer (hex2bin contents))
  | some .decimal => some (.integer (dec2bin contents))
  | none =>
    if _hleft : (contents ++ behind).head? = some leftBracket then
      match _h : arrayTokens (1 + contents.count comma) 0 contents with
      | none => none
      | some [] => some .invalid
      | some (tok :: toks) =>
        (collect ((tok :: toks).attach.zipIdx.map fun t =>
          processDataToken (fun _ => []) t.1.1 (stale t.2))).map Element.array
    else if strcmp (contents ++ behind) (bytes "true") ||
        strcmp (contents ++ behind) (bytes "false") then
      some (.boolean (strcmp (contents ++ behind) (bytes "true")))
    else some (.string (copied (contents ++ behind)))
termination_by contents.length
decreasing_by exact length_lt_of_mem_arrayTokens _hleft _h t.1.2

/-- What is behind the names and the array elements of the tokens in memory. -/
structure Environment where
  name : Nat → CString
  item : Nat → Nat → CString

/-- The variables of the loop over the tokens, and the elements. -/
structure ParseState where
  isLookingForVariableName : Bool
  name : CString
  elements : List (CString × Element)
  errorMessages : List CString

/-- The message for a token in the place of another; it says the same for both types. -/
def unexpectedToken (tok : Token) : CString :=
  bytes "Line " ++ printDecimal (BitVec.ofNat 32 tok.line) ++ bytes ":" ++
    printDecimal (BitVec.ofNat 32 tok.character) ++
    bytes ", Internal error: Unexcepted token of type \"VARIABLE_NAME.\""

/-- The body of the loop over the tokens. -/
def parseToken (env : Environment) (s : ParseState) (tok : Token) : Option ParseState :=
  match tok.type with
  | .operator => some { s with isLookingForVariableName := false }
  | .variableName =>
    if s.isLookingForVariableName then
      some { s with name := tok.contents ++ env.name s.elements.length }
    else some { s with errorMessages := s.errorMessages ++ [unexpectedToken tok] }
  | .data =>
    if s.isLookingForVariableName then
      some { s with errorMessages := s.errorMessages ++ [unexpectedToken tok] }
    else
      (processDataToken (env.item s.elements.length) tok.contents []).map fun e =>
        { s with
          isLookingForVariableName := true
          name := []
          elements := s.elements ++ [(s.name, e)] }

/-- The loop over the tokens. -/
def parseTokens (env : Environment) (tokens : List Token) : Option ParseState :=
  tokens.foldlM (parseToken env) ⟨true, [], [], []⟩

/-- What `Parse` leaves. -/
structure ParseOutcome where
  result : Bool
  elements : List (CString × Element)
  errorMessages : List CString

/-- `Parser::Parse` of a buffer, with what follows it in memory. -/
def parse (env : Environment) (data tail : List (BitVec 8)) : Option ParseOutcome :=
  let lexed := runLexicalAnalysis data tail
  if lexed.errorMessages ≠ [] then some ⟨false, [], lexed.errorMessages⟩
  else
    (parseTokens env lexed.tokens).map fun s =>
      ⟨s.errorMessages.isEmpty, s.elements, s.errorMessages⟩

/-! ## Arrays -/

/-- A segment of an array from its first character on that is not a space or a bracket that
opens. -/
def itemStart (segment : CString) : CString :=
  segment.dropWhile fun b => isWhitespace b || b = leftBracket

/-- The segment closes the array. -/
def Closes (segment : CString) : Prop := (itemStart segment).head? = some rightBracket

instance (segment : CString) : Decidable (Closes segment) :=
  inferInstanceAs (Decidable (_ = _))

/-- A bracket closes the array behind an element, or a space outside quotation marks is behind
it. -/
def Ends (item : CString) : Prop :=
  ∃ before c after, item = before ++ c :: after ∧
    (c = rightBracket ∨ isWhitespace c = true ∧ before.count quotation % 2 = 0)

/-- The elements of an array that is given by its segments between the commas. -/
def arrayItems : List CString → Option (List CString)
  | [] => some []
  | [segment] =>
    if Closes segment ∨ itemStart segment = [] then some []
    else (lastLen false (itemStart segment)).map fun len => [(itemStart segment).take len]
  | segment :: next :: segments =>
    if Closes segment then some [] else (arrayItems (next :: segments)).map
      (itemStart segment :: ·)

section Arrays

variable {segment : CString} {segments rest : List CString} {b : BitVec 8} {bs : CString}

theorem arrayItems_cons (hne : segments ≠ []) : arrayItems (segment :: segments) =
    if Closes segment then some [] else (arrayItems segments).map (itemStart segment :: ·) := by
  cases segments with
  | nil => exact absurd rfl hne
  | cons next segments => rfl

theorem arrayItems_of_closes (h : Closes segment) : arrayItems (segment :: segments) = some [] := by
  cases segments with
  | nil => rw [arrayItems, if_pos (.inl h)]
  | cons next segments => rw [arrayItems, if_pos h]

theorem arrayItems_congr {segment' : CString} (h : itemStart segment = itemStart segment') :
    arrayItems (segment :: segments) = arrayItems (segment' :: segments) := by
  have hcloses : Closes segment ↔ Closes segment' := by
    rw [Closes, Closes, h]
  cases segments with
  | nil => simp only [arrayItems, hcloses, h]
  | cons next segments => simp only [arrayItems, hcloses, h]

/-- Segments that do not close the array are elements. -/
theorem arrayItems_append (h : ∀ s ∈ segments, ¬ Closes s) (hne : rest ≠ []) :
    arrayItems (segments ++ rest) = (arrayItems rest).map (segments.map itemStart ++ ·) := by
  induction segments with
  | nil => simp
  | cons s segments ih =>
    obtain ⟨hs, hsegments⟩ := forall_mem_cons.1 h
    rw [cons_append, arrayItems_cons (by simp [hne]), if_neg hs, ih hsegments,
      Option.map_map]
    rfl

/-- What follows a segment that closes the array does not matter. -/
theorem arrayItems_of_exists {last front : CString} (h : ∃ s ∈ segments ++ [last], Closes s) :
    arrayItems (segments ++ (last ++ front) :: rest) = arrayItems (segments ++ [last]) := by
  induction segments with
  | nil =>
    obtain ⟨s, hs, hcloses⟩ := h
    rw [nil_append, mem_singleton] at hs
    subst hs
    have hfront : Closes (s ++ front) := by
      rw [Closes, itemStart] at hcloses ⊢
      rw [dropWhile_append, if_neg, head?_append, hcloses]
      · rfl
      · intro hempty
        rw [isEmpty_iff.1 hempty] at hcloses
        cases hcloses
    rw [nil_append, nil_append, arrayItems_of_closes hfront,
      arrayItems_of_closes hcloses]
  | cons s segments ih =>
    rw [cons_append, cons_append, arrayItems_cons (by simp), arrayItems_cons (by simp)]
    by_cases hs : Closes s
    · rw [if_pos hs, if_pos hs]
    · rw [if_neg hs, if_neg hs, ih]
      obtain ⟨s', hs', hcloses⟩ := h
      rcases mem_cons.1 hs' with rfl | hs'
      · exact absurd hcloses hs
      · exact ⟨s', hs', hcloses⟩

/-- The length of the last element is set exactly if it has an end. -/
theorem lastLen_isSome_iff {inQuotations : Bool} {s : CString} :
    (lastLen inQuotations s).isSome = true ↔ ∃ before c after, s = before ++ c :: after ∧
      (c = rightBracket ∨ isWhitespace c = true ∧
        (before.count quotation % 2 = 0 ↔ inQuotations = false)) := by
  induction s generalizing inQuotations with
  | nil => simp [lastLen]
  | cons c cs ih =>
    rw [lastLen]
    split
    · rename_i hspace
      rw [Bool.and_eq_true, Bool.not_eq_true'] at hspace
      exact iff_of_true rfl ⟨[], c, cs, rfl, .inr ⟨hspace.1, by simp [hspace.2]⟩⟩
    split
    · rename_i hright
      exact iff_of_true rfl ⟨[], c, cs, rfl, .inl hright⟩
    · rename_i hspace hright
      rw [Option.isSome_map, ih]
      have hcount (before : CString) :
          ((c :: before).count quotation % 2 = 0 ↔ inQuotations = false) ↔
          (before.count quotation % 2 = 0 ↔
            (if c = quotation then !inQuotations else inQuotations) = false) := by
        rw [count_cons]
        cases inQuotations <;> by_cases hc : c = quotation <;> simp [hc] <;> omega
      constructor
      · rintro ⟨before, d, after, rfl, h⟩
        exact ⟨c :: before, d, after, rfl, by rwa [hcount]⟩
      · rintro ⟨before, d, after, heq, h⟩
        cases before with
        | nil =>
          cases heq
          simp_all
        | cons d' before =>
          cases heq
          exact ⟨before, d, after, rfl, by rwa [← hcount]⟩

/-- The elements are found exactly if the array is closed, or its last element is empty or has an
end. -/
theorem arrayItems_isSome_iff : (arrayItems segments).isSome = true ↔
    (∃ s ∈ segments, Closes s) ∨
      ∀ last ∈ segments.getLast?, itemStart last = [] ∨ Ends (itemStart last) := by
  induction segments with
  | nil => simp [arrayItems]
  | cons s segments ih =>
    by_cases hs : Closes s
    · simp [arrayItems_of_closes hs, hs]
    · cases segments with
      | nil =>
        by_cases hempty : itemStart s = [] <;>
          simp [arrayItems, hs, hempty, lastLen_isSome_iff, Ends]
      | cons next segments =>
        rw [arrayItems_cons (cons_ne_nil _ _), if_neg hs, Option.isSome_map, ih,
          getLast?_cons_cons, exists_mem_cons_iff (l := next :: segments), or_iff_right hs]

/-- The segments of a string that goes on. -/
theorem splitOn_append (s t : CString) : ∃ init last front rest, s.splitOn comma = init ++ [last] ∧
    (s ++ t).splitOn comma = init ++ (last ++ front) :: rest := by
  induction s with
  | nil =>
    obtain ⟨front, rest, ht⟩ := exists_cons_of_ne_nil (splitOn_ne_nil comma t)
    exact ⟨[], [], front, rest, rfl, ht⟩
  | cons b s ih =>
    obtain ⟨init, last, front, rest, hs, hst⟩ := ih
    rw [cons_append, splitOn_cons_eq_if_modifyHead, splitOn_cons_eq_if_modifyHead,
      hs, hst]
    by_cases hb : b = comma
    · exact ⟨[] :: init, last, front, rest, by simp [hb], by simp [hb]⟩
    · cases init with
      | nil => exact ⟨[], b :: last, front, rest, by simp [hb], by simp [hb]⟩
      | cons first init =>
        exact ⟨(b :: first) :: init, last, front, rest, by simp [hb], by simp [hb]⟩

/-- No element is found after the last one. -/
theorem extracted_self (n : Nat) (s : CString) : extracted n n s = [] := by
  induction s with
  | nil => rw [extracted]
  | cons b bs ih => simp [extracted, ih]

theorem splitOn_cons_skip (hne : b ≠ comma) (hskip : (isWhitespace b || b = leftBracket) = true) :
    arrayItems ((b :: bs).splitOn comma) = arrayItems (bs.splitOn comma) := by
  obtain ⟨first, rest, hbs⟩ := exists_cons_of_ne_nil (splitOn_ne_nil comma bs)
  rw [splitOn_cons_eq_if_modifyHead, hbs, if_neg (by simpa using hne)]
  refine arrayItems_congr ?_
  simp only [itemStart, dropWhile_cons, hskip, if_true]

theorem itemStart_cons (hspace : isWhitespace b = false) (hleft : b ≠ leftBracket) :
    itemStart (b :: bs) = b :: bs := by
  simp [itemStart, hspace, hleft]

/-- What is in front of a comma is an element if its first character is that of one. -/
theorem itemStart_of_append {rest : CString} (hspace : isWhitespace b = false)
    (hleft : b ≠ leftBracket) (hright : b ≠ rightBracket)
    (heq : b :: bs = segment ++ comma :: rest) :
    itemStart segment = segment ∧ ¬ Closes segment := by
  cases segment with
  | nil => exact ⟨rfl, by simp [Closes, itemStart]⟩
  | cons c cs =>
    cases heq
    rw [Closes, itemStart_cons hspace hleft]
    exact ⟨rfl, by simpa using hright⟩

/-- The loop finds the elements between the commas. -/
theorem arrayTokens_eq {n k : Nat} {s : CString} (hn : n = k + (1 + s.count comma)) :
    arrayTokens n k s = arrayItems (s.splitOn comma) := by
  rw [arrayTokens]
  induction k, s using extracted.induct n with
  | case1 k =>
    rw [extracted]
    rfl
  | case2 k b bs hspace ih =>
    have hne : b ≠ comma := fun heq => by
      rw [heq] at hspace
      cases hspace
    rw [count_cons_of_ne hne] at hn
    rw [extracted, if_pos hspace, ih hn, splitOn_cons_skip hne (by simp [hspace])]
  | case3 k bs hspace =>
    obtain ⟨first, rest, hbs⟩ := exists_cons_of_ne_nil (splitOn_ne_nil comma bs)
    have hcloses : Closes (rightBracket :: first) := by
      rfl
    rw [extracted, if_neg hspace, if_pos rfl, splitOn_cons_eq_if_modifyHead, hbs,
      if_neg (by decide), modifyHead_cons, arrayItems_of_closes hcloses]
    rfl
  | case4 k bs hspace hright ih =>
    rw [extracted, if_neg hspace, if_neg hright, if_pos rfl, ih hn,
      splitOn_cons_skip (by decide) (by decide)]
  | case5 b bs hspace hright hleft => omega
  | case6 k b bs hspace hright hleft hall ih =>
    have hspace' : isWhitespace b = false := Bool.eq_false_iff.2 hspace
    rw [extracted, if_neg hspace, if_neg hright, if_neg hleft, if_neg hall]
    by_cases hmem : comma ∈ b :: bs
    · -- the element ends at the next comma
      obtain ⟨segment, rest, heq, hnot⟩ := eq_append_cons_of_mem hmem
      have hlen : strCountToChar (b :: bs) comma = segment.length := by
        rw [heq, strCountToChar_append hnot]
      have hcount : (b :: bs).count comma = 1 + rest.count comma := by
        rw [heq, count_append, count_eq_zero.2 hnot, count_cons_self]
        omega
      have hdrop : bs.drop segment.length = rest := by
        have := congrArg (drop (segment.length + 1)) heq
        rw [drop_succ_cons] at this
        rw [this]
        simp
      obtain ⟨hstart, hopen⟩ := itemStart_of_append hspace' hleft hright heq
      have hrest := ih segment.length
      rw [hdrop] at hrest
      rw [if_neg (by omega), hlen]
      simp only [map_cons, Option.map_some, collect, Option.bind_some]
      rw [hdrop, hrest (by omega), heq, take_left, splitOn_append_cons_of_beq _ _ (by simp),
        splitOn_eq_singleton hnot, singleton_append, arrayItems_cons (splitOn_ne_nil _ _),
        if_neg hopen, hstart]
    · -- the last element
      rw [count_eq_zero.2 hmem] at hn
      have hopen : ¬ (Closes (b :: bs) ∨ itemStart (b :: bs) = []) := by
        rw [Closes, itemStart_cons hspace' hleft]
        simpa using hright
      rw [if_pos (by omega), splitOn_eq_singleton hmem, arrayItems, if_neg hopen,
        itemStart_cons hspace' hleft]
      cases lastLen false (b :: bs) with
      | none => rfl
      | some len =>
        have hn' : n = k + 1 := by omega
        simp only [← hn', extracted_self]
        rfl

end Arrays

/-! ## Data -/

/-- A segment of the array closes it, or its last element is empty or has an end. -/
def Terminated (contents : CString) : Prop :=
  contents.head? = some leftBracket →
    (∃ segment ∈ contents.splitOn comma, Closes segment) ∨
      ∀ last ∈ (contents.splitOn comma).getLast?, itemStart last = [] ∨ Ends (itemStart last)

/-- What follows the data does not change it: a segment of the array closes it, or `strlen` stops in
the string. -/
def Stable (contents : CString) : Prop :=
  if contents.head? = some leftBracket then ∃ segment ∈ contents.splitOn comma, Closes segment
  else 1 ∈ contents

section Data

variable {stale : Nat → CString} {contents behind : CString}

/-- An array is not an integer. -/
theorem strToIntegerType_array (hleft : contents.head? = some leftBracket) :
    strToIntegerType contents behind = none := by
  cases contents with
  | nil => cases hleft
  | cons b bs =>
    cases hleft
    rw [strToIntegerType, if_neg, if_neg]
    · simp [isDigit, leftBracket]
    · exact fun h => absurd (cons.inj h).1 (by decide)

/-- Data that does not begin with a bracket becomes an element. -/
theorem processDataToken_isSome (hleft : contents.head? ≠ some leftBracket) :
    (processDataToken stale contents behind).isSome = true := by
  rw [processDataToken]
  split
  · rfl
  · rfl
  · split
    · rename_i hbehind
      cases contents with
      | cons b bs => exact absurd hbehind hleft
      | nil =>
        split
        · rename_i htokens
          rw [arrayTokens, extracted] at htokens
          cases htokens
        · rfl
        · rename_i htokens
          rw [arrayTokens, extracted] at htokens
          cases htokens
    · split <;> rfl

theorem head?_itemStart (segment : CString) : (itemStart segment).head? ≠ some leftBracket := by
  intro h
  have hnot := head?_dropWhile_not (fun b => isWhitespace b || b = leftBracket) segment
  rw [itemStart] at h
  rw [h] at hnot
  simp at hnot

theorem head?_of_mem_arrayItems {segments items : List CString}
    (h : arrayItems segments = some items) {item : CString} (hitem : item ∈ items) :
    item.head? ≠ some leftBracket := by
  induction segments generalizing items with
  | nil =>
    cases h
    cases hitem
  | cons segment segments ih =>
    cases segments with
    | nil =>
      rw [arrayItems] at h
      split at h
      · cases h
        cases hitem
      · obtain ⟨len, -, rfl⟩ := map_eq_some_iff.1 h
        rw [mem_singleton.1 hitem]
        intro hhead
        refine head?_itemStart segment ?_
        cases len with
        | zero => cases hhead
        | succ len => rwa [head?_take, if_neg (Nat.succ_ne_zero _)] at hhead
    | cons next segments =>
      rw [arrayItems] at h
      split at h
      · cases h
        cases hitem
      · obtain ⟨rest, hrest, rfl⟩ := map_eq_some_iff.1 h
        rcases mem_cons.1 hitem with rfl | hitem
        · exact head?_itemStart segment
        · exact ih hrest hitem

/-- The element of an array is made of its items. -/
theorem processDataToken_array (hleft : contents.head? = some leftBracket) :
    processDataToken stale contents [] =
      (arrayItems (contents.splitOn comma)).bind fun items =>
        if items = [] then some .invalid
        else (collect (items.zipIdx.map fun t =>
          processDataToken (fun _ => []) t.1 (stale t.2))).map Element.array := by
  rw [processDataToken, strToIntegerType_array hleft,
    ← arrayTokens_eq (n := 1 + contents.count comma) (k := 0) (by omega)]
  simp only [append_nil, hleft, dite_true]
  split <;> rename_i hsome <;> rw [hsome]
  · rfl
  · rfl
  · rename_i tok toks
    rw [Option.bind_some, if_neg (cons_ne_nil _ _)]
    conv_rhs => rw [← attach_map_subtype_val (tok :: toks), zipIdx_map, map_map]
    rfl

/-- An array with items becomes an element with as many. -/
theorem processDataToken_items (stale : Nat → CString) (hleft : contents.head? = some leftBracket)
    {items : List CString}
    (hitems : arrayItems (contents.splitOn comma) = some items) (hne : items ≠ []) :
    ∃ es : List Element, processDataToken stale contents [] = some (.array es) ∧
      es.length = items.length := by
  obtain ⟨es, hes⟩ : ∃ es, collect (items.zipIdx.map fun t =>
      processDataToken (fun _ => []) t.1 (stale t.2)) = some es :=
    isSome_iff_exists.1 <| collect_isSome_iff.2 <| forall_mem_map.2 fun _ ht =>
      processDataToken_isSome (head?_of_mem_arrayItems hitems (fst_mem_of_mem_zipIdx ht))
  refine ⟨es, ?_, ?_⟩
  · rw [processDataToken_array hleft, hitems, Option.bind_some, if_neg hne, hes]
    rfl
  · have hlen := congrArg length (collect_eq_some_iff.1 hes)
    rw [length_map, length_map, length_zipIdx] at hlen
    exact hlen.symm

/-- Data becomes an element if its last array element has an end. -/
theorem processDataToken_isSome_iff (stale : Nat → CString) :
    (processDataToken stale contents []).isSome = true ↔ Terminated contents := by
  by_cases hleft : contents.head? = some leftBracket
  · constructor
    · intro h _
      refine arrayItems_isSome_iff.1 ?_
      rw [processDataToken_array hleft] at h
      cases hitems : arrayItems (contents.splitOn comma) with
      | none =>
        rw [hitems] at h
        cases h
      | some items => rfl
    · intro h
      obtain ⟨items, hitems⟩ := isSome_iff_exists.1 (arrayItems_isSome_iff.2 (h hleft))
      by_cases hne : items = []
      · rw [processDataToken_array hleft, hitems, Option.bind_some, if_pos hne]
        rfl
      · obtain ⟨es, hes, -⟩ := processDataToken_items stale hleft hitems hne
        rw [hes]
        rfl
  · exact iff_of_true (processDataToken_isSome hleft) fun h => absurd h hleft

/-- Data with a character that integers and booleans do not have is a string. -/
theorem processDataToken_string {b : BitVec 8} (hb : b ∈ contents) (hhex : isHexDigit b = false)
    (hzerox : b ∉ bytes "0x") (htrue : b ∉ bytes "true") (hfalse : b ∉ bytes "false")
    (hleft : contents.head? ≠ some leftBracket) :
    processDataToken stale contents [] = some (.string (copied contents)) := by
  have hdigit : isDigit b = false := by
    simp only [isHexDigit, Bool.or_eq_false_iff] at hhex
    exact hhex.1.1
  have hinteger : strToIntegerType contents [] = none := by
    rw [strToIntegerType, append_nil]
    split
    · rename_i htake
      rw [if_neg]
      rintro ⟨-, hall⟩
      rw [← take_append_drop 2 contents, htake, mem_append] at hb
      have := all_eq_true.1 hall b (hb.resolve_left hzerox)
      rw [hhex] at this
      cases this
    · rw [if_neg]
      intro hall
      have := all_eq_true.1 hall b hb
      rw [hdigit] at this
      cases this
  have hne {t : CString} (ht : b ∉ t) (hone : 1 ∉ t) : strcmp contents t = false := by
    rw [strcmp_eq contents hone, decide_eq_false]
    rintro rfl
    exact ht hb
  rw [processDataToken, hinteger]
  simp only [append_nil, hleft, dite_false, hne htrue (by decide), hne hfalse (by decide),
    Bool.or_self, Bool.false_eq_true, if_false]

/-- Stable data becomes the same element whatever follows. -/
theorem Stable.processDataToken {x : CString} (h : Stable x) (hne : x ≠ [])
    (stale : Nat → CString) :
    ∃ e, ∀ u, Boot.processDataToken stale (x ++ u) [] = some e := by
  have hhead (u : CString) : (x ++ u).head? = x.head? := head?_append_of_ne_nil _ hne
  rw [Stable] at h
  split at h
  · rename_i hleft
    have hitems (u : CString) :
        arrayItems ((x ++ u).splitOn comma) = arrayItems (x.splitOn comma) := by
      obtain ⟨init, last, front, rest, hx, hxu⟩ := splitOn_append x u
      rw [hx] at h
      rw [hx, hxu, arrayItems_of_exists h]
    obtain ⟨e, he⟩ := isSome_iff_exists.1
      ((processDataToken_isSome_iff stale).2 fun _ => .inl h)
    refine ⟨e, fun u => ?_⟩
    rw [processDataToken_array ((hhead u).trans hleft), hitems u, ← processDataToken_array hleft,
      he]
  · have hcopied (u : CString) : copied (x ++ u) = copied x := by
      rw [copied_eq_takeWhile, copied_eq_takeWhile, takeWhile_append_of_exists]
      exact all_eq_false.2 ⟨1, h, by simp⟩
    refine ⟨.string (copied x), fun u => ?_⟩
    rw [← hcopied u]
    exact processDataToken_string (b := 1) (mem_append_left u h) (by decide) (by decide)
      (by decide) (by decide) (by rwa [hhead u])

/-- Other data becomes different elements. -/
theorem processDataToken_of_not_stable {x : CString} (h : ¬ Stable x) (hne : x ≠ [])
    (stale : Nat → CString) :
    ∃ u u' : CString, upTo newline u = u ∧ upTo newline u' = u' ∧ ∃ e e' : Element,
      processDataToken stale (x ++ u) [] = some e ∧ processDataToken stale (x ++ u') [] = some e' ∧
        e ≠ e' := by
  have hhead (u : CString) : (x ++ u).head? = x.head? := head?_append_of_ne_nil _ hne
  rw [Stable] at h
  split at h
  · -- a comma ends the last segment, which is an element then; another one may follow
    rename_i hleft
    have hopen : ∀ s ∈ x.splitOn comma, ¬ Closes s := fun s hs hcloses => h ⟨s, hs, hcloses⟩
    have hitems (t : CString) : arrayItems ((x ++ comma :: t).splitOn comma) =
        (arrayItems (t.splitOn comma)).map ((x.splitOn comma).map itemStart ++ ·) := by
      rw [splitOn_append_cons_of_beq _ _ (by simp),
        arrayItems_append hopen (splitOn_ne_nil _ _)]
    have hsome (t : CString) (items : List CString)
        (ht : arrayItems (t.splitOn comma) = some items) :
        ∃ es : List Element, processDataToken stale (x ++ comma :: t) [] = some (.array es) ∧
          es.length = (x.splitOn comma).length + items.length := by
      obtain ⟨es, hes, hlen⟩ := processDataToken_items stale ((hhead _).trans hleft)
        ((hitems t).trans (by rw [ht]; rfl)) (by simp)
      exact ⟨es, hes, by rw [hlen]; simp⟩
    obtain ⟨es, hes, hlen⟩ := hsome [] [] rfl
    obtain ⟨es', hes', hlen'⟩ := hsome [0x7a, rightBracket] [[0x7a]] (by decide)
    refine ⟨_, _, by decide, by decide, _, _, hes, hes', fun heq => ?_⟩
    cases heq
    rw [hlen, length_nil, length_singleton] at hlen'
    omega
  · have hstring (u : CString) (hu : 0x7a ∈ u) (hone : 1 ∉ u) :
        processDataToken stale (x ++ u) [] = some (.string (x ++ u)) := by
      have hcopied := copied_eq fun hmem => (mem_append.1 hmem).elim h hone
      rw [processDataToken_string (b := 0x7a) (mem_append_right x hu) (by decide) (by decide)
        (by decide) (by decide) (by rwa [hhead u]), hcopied]
    refine ⟨[0x7a], [0x7a, 0x7a], by decide, by decide, _, _, hstring _ (by decide) (by decide),
      hstring _ (by decide) (by decide), fun heq => ?_⟩
    have := append_cancel_left (Element.string.inj heq)
    cases this

end Data

/-! ## Tokens -/

section Tokens

variable {env : Environment} {tokens : List Token} {type : TokenType} {tok : Token} {s : ParseState}

theorem parseTokens_concat :
    parseTokens env (tokens ++ [tok]) = (parseTokens env tokens).bind (parseToken env · tok) := by
  rw [parseTokens, foldlM_append]
  simp only [foldlM_cons, foldlM_nil, bind_pure]
  rfl

theorem parseToken_name (htype : tok.type = .variableName)
    (hlooking : s.isLookingForVariableName = true) :
    parseToken env s tok = some { s with name := tok.contents ++ env.name s.elements.length } := by
  rw [parseToken, htype]
  exact if_pos hlooking

theorem parseToken_data (htype : tok.type = .data) (hlooking : s.isLookingForVariableName = false) :
    parseToken env s tok =
      (processDataToken (env.item s.elements.length) tok.contents []).map fun e =>
        { s with
          isLookingForVariableName := true
          name := []
          elements := s.elements ++ [(s.name, e)] } := by
  rw [parseToken, htype]
  exact if_neg (by simp [hlooking])

/-- Tokens in order are expected. -/
theorem Ordered.parse (h : Ordered tokens type) (hs : parseTokens env tokens = some s) :
    s.errorMessages = [] ∧ s.isLookingForVariableName = decide (type ≠ .data) := by
  induction h generalizing s with
  | start =>
    cases hs
    exact ⟨rfl, rfl⟩
  | name _ htype ih =>
    rw [parseTokens_concat] at hs
    obtain ⟨s1, hs1, hs⟩ := bind_eq_some_iff.1 hs
    obtain ⟨herrors, hlooking⟩ := ih hs1
    rw [parseToken_name htype hlooking] at hs
    cases hs
    exact ⟨herrors, hlooking⟩
  | operator _ htype ih =>
    rw [parseTokens_concat] at hs
    obtain ⟨s1, hs1, hs⟩ := bind_eq_some_iff.1 hs
    rw [parseToken, htype] at hs
    cases hs
    exact ⟨(ih hs1).1, rfl⟩
  | data _ htype ih =>
    rw [parseTokens_concat] at hs
    obtain ⟨s1, hs1, hs⟩ := bind_eq_some_iff.1 hs
    obtain ⟨herrors, hlooking⟩ := ih hs1
    rw [parseToken_data htype hlooking] at hs
    obtain ⟨e, -, rfl⟩ := map_eq_some_iff.1 hs
    exact ⟨herrors, rfl⟩

/-- Tokens in order are parsed if the arrays in them have an end. -/
theorem Ordered.parseTokens_isSome_iff (h : Ordered tokens type) (env : Environment) :
    (parseTokens env tokens).isSome = true ↔
      ∀ tok ∈ tokens, tok.type = .data → Terminated tok.contents := by
  induction h with
  | start => simp [parseTokens]
  | name hord htype ih =>
    rw [parseTokens_concat, forall_mem_append, ← ih]
    cases hs : parseTokens env _ with
    | none => simp
    | some s => simp [parseToken_name htype (hord.parse hs).2, htype]
  | operator hord htype ih =>
    rw [parseTokens_concat, forall_mem_append, ← ih]
    cases hs : parseTokens env _ with
    | none => simp
    | some s => simp [parseToken, htype]
  | data hord htype ih =>
    rw [parseTokens_concat, forall_mem_append, ← ih]
    cases hs : parseTokens env _ with
    | none => simp
    | some s =>
      simp [parseToken_data htype (hord.parse hs).2, htype, processDataToken_isSome_iff]

/-- A name at the end changes nothing. -/
theorem Ordered.parse_name (h : Ordered tokens .variableName) (htype : tok.type = .variableName) :
    (parseTokens env (tokens ++ [tok])).map (fun s => (s.elements, s.errorMessages)) =
      (parseTokens env tokens).map fun s => (s.elements, s.errorMessages) := by
  rw [parseTokens_concat]
  cases hs : parseTokens env tokens with
  | none => rfl
  | some s =>
    rw [Option.bind_some, parseToken_name htype (h.parse hs).2]
    rfl

/-- Data at the end becomes an element. -/
theorem Ordered.parse_data (h : Ordered tokens .data) (htype : tok.type = .data) :
    (parseTokens env (tokens ++ [tok])).map (fun s => (s.elements, s.errorMessages)) =
      (parseTokens env tokens).bind fun s =>
        (processDataToken (env.item s.elements.length) tok.contents []).map fun e =>
          (s.elements ++ [(s.name, e)], s.errorMessages) := by
  rw [parseTokens_concat]
  cases hs : parseTokens env tokens with
  | none => rfl
  | some s =>
    rw [Option.bind_some, parseToken_data htype (h.parse hs).2, Option.map_map]
    rfl

end Tokens

/-! ## The result -/

/-- The arrays in the tokens have an end. -/
def AllTerminated (tokens : List Token) : Prop :=
  ∀ tok ∈ tokens, tok.type = .data → Terminated tok.contents

/-- The condition: there is an error, or every array in the buffer has an end, and data that goes on
behind the end of the buffer does not change. -/
def SelfContained (data : List (BitVec 8)) : Prop :=
  (runLexicalAnalysis data []).errorMessages ≠ [] ∨
  (AllTerminated (runLexicalAnalysis data []).tokens ∧
    ∀ x, openData data lexStart = some x → Stable x)

section Result

variable {env : Environment} {data tail : List (BitVec 8)} {st : LexState} {x : CString}

/-- What `Parse` leaves after the loop over the tokens. -/
def ParseState.outcome (r : List (CString × Element) × List CString) : ParseOutcome :=
  ⟨r.2.isEmpty, r.1, r.2⟩

theorem parse_eq (hlex : runLexicalAnalysis data tail = st) (herrors : st.errorMessages = []) :
    parse env data tail = ((parseTokens env st.tokens).map fun s =>
      (s.elements, s.errorMessages)).map ParseState.outcome := by
  rw [parse, hlex, if_neg (not_not.2 herrors), Option.map_map]
  rfl

/-- The errors of the lexer do not depend on what follows the buffer. -/
theorem errorMessages_runLexicalAnalysis (tail : List (BitVec 8)) :
    (runLexicalAnalysis data tail).errorMessages = (runLexicalAnalysis data []).errorMessages := by
  cases hopen : openData data lexStart with
  | none =>
    obtain ⟨st, -, hlex⟩ := lexLoop_of_closed (fun _ => .start) hopen
    have herrors (t : List (BitVec 8)) : (runLexicalAnalysis data t).errorMessages =
        st.errorMessages := by
      rcases hlex t with heq | ⟨-, contents, heq⟩
      · rw [runLexicalAnalysis, heq]
      · rw [runLexicalAnalysis, heq]
        rfl
    rw [herrors, herrors]
  | some x =>
    obtain ⟨-, st, -, -, hlex⟩ := lexLoop_of_openData (fun _ => .start) hopen
    rw [runLexicalAnalysis, runLexicalAnalysis, hlex, hlex]
    rfl

/-- Without data that goes on behind the end of the buffer the outcome is that of its tokens. -/
theorem parse_of_closed (hclosed : openData data lexStart = none)
    (herrors : (runLexicalAnalysis data []).errorMessages = []) :
    ∃ tokens type, Ordered tokens type ∧
      (AllTerminated (runLexicalAnalysis data []).tokens ↔ AllTerminated tokens) ∧
      ∀ env tail, parse env data tail = ((parseTokens env tokens).map fun s =>
        (s.elements, s.errorMessages)).map ParseState.outcome := by
  obtain ⟨st, horderly, hlex⟩ := lexLoop_of_closed (fun _ => .start) hclosed
  have hst : st.errorMessages = [] := by
    rcases hlex [] with heq | ⟨-, contents, heq⟩
    · rwa [runLexicalAnalysis, heq] at herrors
    · rwa [runLexicalAnalysis, heq] at herrors
  have hord := horderly hst
  refine ⟨st.tokens, st.searchingFor, hord, ?_, fun env tail => ?_⟩
  · rcases hlex [] with heq | ⟨hsearch, contents, heq⟩
    · rw [runLexicalAnalysis, heq]
    · rw [runLexicalAnalysis, heq, AllTerminated, push, forall_mem_append]
      simp [AllTerminated, hsearch]
  · rcases hlex tail with heq | ⟨hsearch, contents, heq⟩
    · exact parse_eq heq hst
    · rw [hsearch] at hord
      rw [parse_eq heq hst, push, hord.parse_name hsearch]

/-- Data that goes on behind the end of the buffer is the last element. -/
theorem parse_of_openData (hopen : openData data lexStart = some x)
    (herrors : (runLexicalAnalysis data []).errorMessages = []) :
    ∃ tokens, Ordered tokens .data ∧
      (AllTerminated (runLexicalAnalysis data []).tokens ↔ AllTerminated tokens ∧ Terminated x) ∧
      ∀ env tail, parse env data tail = ((parseTokens env tokens).bind fun s =>
        (processDataToken (env.item s.elements.length) (x ++ upTo newline tail) []).map fun e =>
          (s.elements ++ [(s.name, e)], s.errorMessages)).map ParseState.outcome := by
  obtain ⟨-, st, horderly, hsearch, hlex⟩ := lexLoop_of_openData (fun _ => .start) hopen
  have hst : st.errorMessages = [] := by
    rwa [runLexicalAnalysis, hlex] at herrors
  have hord := horderly hst
  rw [hsearch] at hord
  refine ⟨st.tokens, hord, ?_, fun env tail => ?_⟩
  · rw [runLexicalAnalysis, hlex, AllTerminated, push, forall_mem_append]
    simp [AllTerminated, hsearch, upTo]
  · rw [parse_eq (hlex tail) hst, push, hord.parse_data hsearch]

/-- Memory that was zero behind everything that is copied. -/
def zeroedEnvironment : Environment := ⟨fun _ => [], fun _ _ => []⟩

/-- Without data that goes on behind the end, the outcome is determined if the arrays have an
end. -/
theorem depends_only_iff_of_closed (hclosed : openData data lexStart = none)
    (herrors : (runLexicalAnalysis data []).errorMessages = []) :
    (∀ env, ∃ outcome, ∀ tail, parse env data tail = some outcome) ↔
      AllTerminated (runLexicalAnalysis data []).tokens := by
  obtain ⟨tokens, type, hord, hterminated, hparse⟩ := parse_of_closed hclosed herrors
  rw [hterminated]
  constructor
  · intro h
    obtain ⟨outcome, houtcome⟩ := h zeroedEnvironment
    have hsome := houtcome []
    rw [hparse] at hsome
    refine (hord.parseTokens_isSome_iff zeroedEnvironment).1 ?_
    obtain ⟨r, hr, -⟩ := map_eq_some_iff.1 hsome
    obtain ⟨s, hs, -⟩ := map_eq_some_iff.1 hr
    exact isSome_iff_exists.2 ⟨s, hs⟩
  · intro h env
    obtain ⟨s, hs⟩ := isSome_iff_exists.1 ((hord.parseTokens_isSome_iff env).2 h)
    refine ⟨ParseState.outcome (s.elements, s.errorMessages), fun tail => ?_⟩
    rw [hparse, hs]
    rfl

/-- With data that goes on behind the end, the outcome is determined if it is stable besides. -/
theorem depends_only_iff_of_openData (hopen : openData data lexStart = some x)
    (herrors : (runLexicalAnalysis data []).errorMessages = []) :
    (∀ env, ∃ outcome, ∀ tail, parse env data tail = some outcome) ↔
      AllTerminated (runLexicalAnalysis data []).tokens ∧ Stable x := by
  obtain ⟨hne, -⟩ := lexLoop_of_openData (fun _ => .start) hopen
  obtain ⟨tokens, hord, hterminated, hparse⟩ := parse_of_openData hopen herrors
  rw [hterminated]
  constructor
  · intro h
    obtain ⟨outcome, houtcome⟩ := h zeroedEnvironment
    have helement (u : CString) (hu : upTo newline u = u) : ∃ s,
        parseTokens zeroedEnvironment tokens = some s ∧
        ∃ e, processDataToken (fun _ => []) (x ++ u) [] = some e ∧
          ParseState.outcome (s.elements ++ [(s.name, e)], s.errorMessages) = outcome := by
      have hsome := houtcome u
      rw [hparse, hu] at hsome
      obtain ⟨r, hr, hr'⟩ := map_eq_some_iff.1 hsome
      obtain ⟨s, hs, hmap⟩ := bind_eq_some_iff.1 hr
      obtain ⟨e, he, rfl⟩ := map_eq_some_iff.1 hmap
      exact ⟨s, hs, e, he, hr'⟩
    obtain ⟨s, hs, e, he, -⟩ := helement [] rfl
    rw [append_nil] at he
    refine ⟨⟨(hord.parseTokens_isSome_iff _).1 (isSome_iff_exists.2 ⟨s, hs⟩),
      (processDataToken_isSome_iff _).1 (isSome_iff_exists.2 ⟨e, he⟩)⟩, ?_⟩
    by_contra hstable
    obtain ⟨u, u', hu, hu', e1, e2, he1, he2, hdiff⟩ :=
      processDataToken_of_not_stable hstable hne fun _ => []
    obtain ⟨s1, hs1, e1', he1', ho1⟩ := helement u hu
    obtain ⟨s2, hs2, e2', he2', ho2⟩ := helement u' hu'
    cases hs1.symm.trans hs2
    cases he1.symm.trans he1'
    cases he2.symm.trans he2'
    have helements := congrArg ParseOutcome.elements (ho1.trans ho2.symm)
    refine hdiff ?_
    simpa [ParseState.outcome] using helements
  · rintro ⟨⟨hall, -⟩, hstable⟩ env
    obtain ⟨s, hs⟩ := isSome_iff_exists.1 ((hord.parseTokens_isSome_iff env).2 hall)
    obtain ⟨e, he⟩ := hstable.processDataToken hne (env.item s.elements.length)
    refine ⟨ParseState.outcome (s.elements ++ [(s.name, e)], s.errorMessages), fun tail => ?_⟩
    rw [hparse, hs, Option.bind_some, he]
    rfl

/-- The outcome of `Parse` is determined by the bytes of the buffer exactly if the buffer is self
contained. -/
theorem parse_depends_only_iff (data : List (BitVec 8)) :
    (∀ env, ∃ outcome, ∀ tail, parse env data tail = some outcome) ↔ SelfContained data := by
  by_cases herrors : (runLexicalAnalysis data []).errorMessages = []
  · rw [SelfContained, or_iff_right (not_not.2 herrors)]
    cases hopen : openData data lexStart with
    | none =>
      rw [depends_only_iff_of_closed hopen herrors]
      exact ⟨fun h => ⟨h, nofun⟩, fun h => h.1⟩
    | some x =>
      rw [depends_only_iff_of_openData hopen herrors]
      refine and_congr_right fun _ => ⟨?_, fun h => h x rfl⟩
      intro h y hy
      cases hy
      exact h
  · refine iff_of_true (fun env => ?_) (.inl herrors)
    refine ⟨⟨false, [], (runLexicalAnalysis data []).errorMessages⟩, fun tail => ?_⟩
    rw [parse, errorMessages_runLexicalAnalysis, if_pos herrors]

end Result

/-- The integers among the elements. -/
def ParseOutcome.integers (o : ParseOutcome) : List (BitVec 64) :=
  o.elements.filterMap fun
    | (_, .integer n) => some n
    | _ => none

/-- The digit that follows the buffer `a=1` becomes a part of the number. -/
theorem parse_reads_past_end :
    parse zeroedEnvironment (bytes "a=1") [] ≠ parse zeroedEnvironment (bytes "a=1")
      (bytes "2") := by
  have hdiffer : (parse zeroedEnvironment (bytes "a=1") []).map ParseOutcome.integers ≠
      (parse zeroedEnvironment (bytes "a=1") (bytes "2")).map ParseOutcome.integers := by
    decide +kernel
  exact fun heq => hdiffer (congrArg _ heq)

end Obos.Boot
