import Mathlib.Data.Nat.Digits.Defs
import Obos.Boot.Config

/-!
# Texts for the configuration file

What `Parser::Parse` makes of the texts that are written for it. Assignments on lines of their own,
with comments in between, are found by the lexer as they were written (`lexed_written`), and the
elements of an array in brackets are those between its commas (`processDataToken_written`).
A text may also be malformed. The errors of the lexer are the only ones then, but the last element
of an array that has no end is copied with a length that was never set (`extracted_inside_iff`), and
`Parse` returns what it should only for texts without such arrays (`parse_right_iff`). A number is
read as it is written (`processDataToken_numeral_iff`), but `0` may be taken for a `0x`.
-/

namespace Obos.Boot

open Vfs List
open Option (isSome_iff_exists map_eq_some_iff)

/-! ## The elements that are extracted from an array -/

/-- The lengths of the elements of an array are all assigned, and the elements are in the token. -/
def ExtractedInside (contents : CString) : Prop :=
  contents.head? = some leftBracket →
    ∀ t ∈ extracted (1 + contents.count comma) 0 contents,
      t.1 <:+ contents ∧ ∃ len, t.2 = some len ∧ len ≤ t.1.length

/-- All lengths are assigned, and all elements are in the token, exactly if the last element of the
array has an end. -/
theorem extracted_inside_iff (contents : CString) :
    ExtractedInside contents ↔ Terminated contents := by
  refine imp_congr_right fun _ => ?_
  rw [← arrayItems_isSome_iff, ← arrayTokens_eq (n := 1 + contents.count comma) (k := 0) (by omega),
    arrayTokens, collect_isSome_iff, forall_mem_map]
  refine forall₂_congr fun t ht => ?_
  obtain ⟨hsuffix, hlen⟩ := extracted_inside ht
  rw [and_iff_right hsuffix, Option.isSome_map, isSome_iff_exists]
  exact exists_congr fun len => and_iff_left_of_imp (hlen len)

theorem extracted_unclosed : ¬ ExtractedInside (bytes "[a") := by
  intro h
  obtain ⟨len, hlen, -⟩ := (h rfl ([0x61], none) (by decide +kernel)).2
  cases hlen

/-! ## The outcome for any text -/

/-- Before each token of a text without errors of the lexer there is no error of the parser; `Parse`
returns true exactly if the lexer has found no error, and false without a new element. -/
structure ParsesRight (env : Environment) (data : List (BitVec 8)) : Prop where
  tokens : (runLexicalAnalysis data []).errorMessages = [] → ∀ n s,
    parseTokens env ((runLexicalAnalysis data []).tokens.take n) = some s → s.errorMessages = []
  outcome : ∃ o, parse env data [] = some o ∧
    o.errorMessages = (runLexicalAnalysis data []).errorMessages ∧
    (o.result = true ↔ (runLexicalAnalysis data []).errorMessages = []) ∧
    (o.result = false → o.elements = [])

section Outcome

variable {env : Environment} {data rest tail : List (BitVec 8)} {st : LexState}
  {tokens : List Token} {type : TokenType}

/-- The loop keeps the order. -/
theorem lexLoop_orderly (hst : st.Orderly) : (lexLoop rest tail st).Orderly := by
  induction rest, st using lexLoop.induct tail with
  | case1 st => rwa [lexLoop]
  | case2 st b bs hstep =>
    rwa [lexLoop_eq, hstep]
  | case3 st b bs n st' hstep ih =>
    rw [lexLoop_cons hstep]
    exact ih (lexStep_orderly hst hstep)

/-- The first tokens are in order too. -/
theorem Ordered.take (h : Ordered tokens type) (n : Nat) :
    ∃ type, Ordered (tokens.take n) type := by
  have hlast {tokens : List Token} {tok : Token} {type : TokenType}
      (ih : ∃ type, Ordered (tokens.take n) type) (h : Ordered (tokens ++ [tok]) type) :
      ∃ type, Ordered ((tokens ++ [tok]).take n) type := by
    by_cases hn : n ≤ tokens.length
    · rwa [take_append_of_le_length hn]
    · rw [take_of_length_le (by simp; omega)]
      exact ⟨type, h⟩
  induction h with
  | start => exact ⟨_, by simpa using .start⟩
  | name h htype ih => exact hlast ih (.name h htype)
  | operator h htype ih => exact hlast ih (.operator h htype)
  | data h htype ih => exact hlast ih (.data h htype)

/-- `Parse` has the right outcome for a text exactly if the lexer finds an error, or all arrays in
the text have an end. -/
theorem parse_right_iff (env : Environment) (data : List (BitVec 8)) :
    ParsesRight env data ↔ (runLexicalAnalysis data []).errorMessages ≠ [] ∨
      AllTerminated (runLexicalAnalysis data []).tokens := by
  by_cases herrors : (runLexicalAnalysis data []).errorMessages = []
  · have hord : Ordered (runLexicalAnalysis data []).tokens
        (runLexicalAnalysis data []).searchingFor := lexLoop_orderly (fun _ => .start) herrors
    rw [or_iff_right (not_not.2 herrors), AllTerminated, ← hord.parseTokens_isSome_iff env]
    constructor
    · rintro ⟨-, o, ho, -⟩
      rw [parse_eq rfl herrors] at ho
      obtain ⟨r, hr, -⟩ := map_eq_some_iff.1 ho
      obtain ⟨s, hs, -⟩ := map_eq_some_iff.1 hr
      exact isSome_iff_exists.2 ⟨s, hs⟩
    · intro hsome
      obtain ⟨s, hs⟩ := isSome_iff_exists.1 hsome
      refine ⟨fun _ n s hs => ?_, ⟨true, s.elements, []⟩, ?_, herrors.symm,
        iff_of_true rfl herrors, fun h => absurd h.symm Bool.false_ne_true⟩
      · obtain ⟨type, htake⟩ := hord.take n
        exact (htake.parse hs).1
      · rw [parse_eq rfl herrors]
        exact (congrArg _ (congrArg _ hs)).trans (by simp [ParseState.outcome, (hord.parse hs).1])
  · refine iff_of_true ⟨fun h => absurd h herrors, ⟨false, [], _⟩, if_pos herrors, rfl, ?_,
      fun _ => rfl⟩ (.inl herrors)
    simp [herrors]

end Outcome

theorem parse_unclosed : ¬ ParsesRight zeroedEnvironment (bytes "a=[b") := by
  rintro ⟨-, o, ho, -⟩
  have hnone : (parse zeroedEnvironment (bytes "a=[b") []).isNone = true := by decide +kernel
  rw [ho] at hnone
  cases hnone

/-! ## Arrays as they are written -/

/-- Blanks between other characters. -/
abbrev Blank (w : CString) : Prop := ∀ b ∈ w, isWhitespace b = true

/-- A text without blanks and without characters that mean something in an array. -/
abbrev Plain (e : CString) : Prop :=
  ∀ b ∈ e, isWhitespace b = false ∧ b ≠ comma ∧ b ≠ leftBracket ∧ b ≠ rightBracket ∧ b ≠ quotation

/-- The elements of an array as they are written, each behind its blanks. -/
def writtenItems (after : CString) : CString × CString → List (CString × CString) → CString
  | item, [] => item.1 ++ (item.2 ++ (after ++ [rightBracket]))
  | item, next :: items => item.1 ++ (item.2 ++ comma :: writtenItems after next items)

section Written

variable {w e after : CString} {item : CString × CString} {items : List (CString × CString)}

theorem Blank.ne_comma (h : Blank w) : comma ∉ w := fun hmem => by
  cases h comma hmem

/-- An element begins behind its blanks. -/
theorem itemStart_written (hw : Blank w) (he : e ≠ [] ∧ Plain e) (t : CString) :
    itemStart (w ++ (e ++ t)) = e ++ t ∧ ¬ Closes (w ++ (e ++ t)) := by
  obtain ⟨b, bs, rfl⟩ := exists_cons_of_ne_nil he.1
  obtain ⟨hspace, -, hleft, hright, -⟩ := he.2 b mem_cons_self
  have hstart : itemStart (w ++ (b :: bs ++ t)) = b :: bs ++ t := by
    rw [itemStart, dropWhile_append_of_pos fun c hc => by simp [hw c hc]]
    exact itemStart_cons hspace hleft
  refine ⟨hstart, ?_⟩
  rw [Closes, hstart]
  simpa using hright

/-- The last element ends in front of the blanks or the bracket. -/
theorem lastLen_written (ha : Blank after) (he : Plain e) :
    lastLen false (e ++ (after ++ [rightBracket])) = some e.length := by
  induction e with
  | nil =>
    cases after with
    | nil => rfl
    | cons b after => simp [lastLen, ha b mem_cons_self]
  | cons b e ih =>
    obtain ⟨⟨hspace, -, -, hright, hquotation⟩, he⟩ := forall_mem_cons.1 he
    simp [lastLen, hspace, hright, hquotation, ih he]

/-- The elements are found as they were written. -/
theorem arrayItems_written (hall : ∀ i ∈ item :: items, Blank i.1 ∧ i.2 ≠ [] ∧ Plain i.2)
    (ha : Blank after) : arrayItems ((writtenItems after item items).splitOn comma) =
      some ((item :: items).map Prod.snd) := by
  induction items generalizing item with
  | nil =>
    obtain ⟨hw, he⟩ := hall item mem_cons_self
    obtain ⟨hstart, hopen⟩ := itemStart_written hw he (after ++ [rightBracket])
    have hcomma : comma ∉ writtenItems after item [] := by
      simp only [writtenItems, mem_append, mem_singleton, not_or]
      exact ⟨hw.ne_comma, fun h => (he.2 _ h).2.1 rfl, ha.ne_comma, by decide⟩
    rw [splitOn_eq_singleton hcomma, writtenItems, arrayItems, hstart, if_neg,
      lastLen_written ha he.2]
    · simp
    · simp [hopen, he.1]
  | cons next items ih =>
    obtain ⟨⟨hw, he⟩, hrest⟩ := forall_mem_cons.1 hall
    obtain ⟨hstart, hopen⟩ := itemStart_written hw he []
    rw [append_nil] at hstart hopen
    have hcomma : comma ∉ item.1 ++ item.2 := by
      rw [mem_append, not_or]
      exact ⟨hw.ne_comma, fun h => (he.2 _ h).2.1 rfl⟩
    rw [writtenItems, ← append_assoc, splitOn_append_cons_of_beq _ _ (by simp),
      splitOn_eq_singleton hcomma, singleton_append,
      arrayItems_cons (splitOn_ne_nil _ _), if_neg hopen, hstart, ih hrest]
    rfl

/-- An array of plain elements, with blanks in front of them and at the end, becomes an array of
what the elements become on their own. -/
theorem processDataToken_written (hall : ∀ i ∈ item :: items, Blank i.1 ∧ i.2 ≠ [] ∧ Plain i.2)
    (ha : Blank after) :
    ∃ es, processDataToken (fun _ => []) (leftBracket :: writtenItems after item items) [] =
        some (.array es) ∧
      List.Forall₂ (fun i e => processDataToken (fun _ => []) i.2 [] = some e)
        (item :: items) es := by
  have hvalue : ∀ e ∈ (item :: items).map fun i => processDataToken (fun _ => []) i.2 [],
      e.isSome = true := by
    intro e he
    obtain ⟨i, hi, rfl⟩ := mem_map.1 he
    refine processDataToken_isSome fun hhead => ?_
    exact ((hall i hi).2.2 _ (mem_of_mem_head? hhead)).2.2.1 rfl
  obtain ⟨es, hes⟩ := isSome_iff_exists.1 (collect_isSome_iff.2 hvalue)
  refine ⟨es, ?_, ?_⟩
  · have hfst := congrArg (map fun e => processDataToken (fun _ => []) e [])
      (zipIdx_map_fst 0 ((item :: items).map Prod.snd))
    rw [map_map, map_map] at hfst
    rw [processDataToken_array rfl, splitOn_cons_skip (by decide) (by decide),
      arrayItems_written hall ha, Option.bind_some, if_neg (by simp)]
    exact congrArg _ ((congrArg collect hfst).trans hes)
  · have heq : List.Forall₂ (· = ·) ((item :: items).map fun i =>
        processDataToken (fun _ => []) i.2 []) (es.map some) := by
      rw [forall₂_eq_eq_eq]
      exact collect_eq_some_iff.1 hes
    rwa [forall₂_map_left_iff, forall₂_map_right_iff] at heq

end Written

/-- The array `[ 1,true ]`. -/
theorem processDataToken_written_two :
    ∃ es, processDataToken (fun _ => []) (bytes "[ 1,true ]") [] = some (.array es) ∧
      List.Forall₂ (fun i e => processDataToken (fun _ => []) i.2 [] = some e)
        [(bytes " ", bytes "1"), ([], bytes "true")] es := by
  exact @processDataToken_written (bytes " ") (bytes " ", bytes "1") [([], bytes "true")]
    (by decide) (by decide)

/-! ## Assignments as they are written -/

/-- The text between two assignments: blanks, and comments with the rest of their lines. -/
inductive Between : CString → Prop where
  | nil : Between []
  | blank {b : BitVec 8} {t : CString} (hb : isWhitespace b = true) (ht : Between t) :
      Between (b :: t)
  | comment {c t : CString} (hc : ∀ b ∈ c, b ≠ 0#8 ∧ b ≠ newline) (ht : Between t) :
      Between (hash :: c ++ newline :: t)

/-- An assignment on its line, with the text in front of it and the blanks around the operator. -/
structure Assignment where
  before : CString
  key : CString
  left : CString
  right : CString
  value : CString

/-- The assignment as it is written. -/
def Assignment.text (a : Assignment) : CString :=
  a.before ++ (a.key ++ (a.left ++ equals :: (a.right ++ (a.value ++ [newline]))))

/-- The tokens of an assignment. -/
def Assignment.tokens (a : Assignment) : List (TokenType × CString) :=
  [(.variableName, a.key), (.operator, [equals]), (.data, a.value)]

/-- The name and the data can be told from what is around them. -/
structure Assignment.Valid (a : Assignment) : Prop where
  before : Between a.before
  key_ne : a.key ≠ []
  key : ∀ b ∈ a.key, b ≠ 0#8 ∧ isWhitespace b = false ∧ b ≠ equals
  key_head : a.key.head? ≠ some hash
  left : Blank a.left
  right : Blank a.right
  value_ne : a.value ≠ []
  value : ∀ b ∈ a.value, b ≠ 0#8 ∧ b ≠ newline
  value_head : ∀ b ∈ a.value.head?, b ≠ hash ∧ isWhitespace b = false

/-- What the lexer has found, without the places. -/
def LexState.found (st : LexState) : TokenType × List CString × List (TokenType × CString) :=
  (st.searchingFor, st.errorMessages, st.tokens.map fun tok => (tok.type, tok.contents))

/-- The loop goes over a text. -/
def Lexes (text : CString) (st st' : LexState) : Prop :=
  ∀ rest tail, lexLoop (text ++ rest) tail st = lexLoop rest tail st'

section Lexed

variable {st st1 st2 : LexState} {s t w : CString} {b : BitVec 8} {next : TokenType}
  {a : Assignment} {rest tail : List (BitVec 8)}

theorem found_push : (st.push s next).found =
    (next, st.found.2.1, st.found.2.2 ++ [(st.found.1, s)]) := by
  simp [LexState.found, LexState.push]

theorem Lexes.trans (h : Lexes s st st1) (h' : Lexes t st1 st2) : Lexes (s ++ t) st st2 := by
  intro rest tail
  rw [append_assoc, h, h']

theorem takeWhile_stops {p : BitVec 8 → Bool} (hs : ∀ c ∈ s, p c = true) (hb : p b = false) :
    (s ++ b :: t).takeWhile p = s := by
  rw [takeWhile_append_of_pos hs, takeWhile_cons_of_neg (by simp [hb]), append_nil]

theorem upTo_newline (hs : ∀ b ∈ s, b ≠ 0#8 ∧ b ≠ newline) : upTo newline (s ++ newline :: t) = s :=
  takeWhile_stops (fun c hc => by simp [hs c hc]) (by simp)

/-- Between assignments the lexer finds nothing. -/
theorem Between.lexes (ht : Between t) (st : LexState) :
    ∃ st', Lexes t st st' ∧ st'.found = st.found := by
  induction ht generalizing st with
  | nil => exact ⟨st, fun _ _ => rfl, rfl⟩
  | @blank b t hb _ ih =>
    have hzero : b ≠ 0#8 := fun h => by simp [h, isWhitespace, newline] at hb
    have hhash : b ≠ hash := fun h => by simp [h, isWhitespace, newline, hash] at hb
    obtain ⟨st', hst', hfound⟩ :=
      ih (if b = newline then st.nextLine else { st with character := st.character + 1 })
    refine ⟨st', fun rest tail => ?_, hfound.trans ?_⟩
    · rw [cons_append, lexLoop_cons (lexStep_space hzero hhash hb)]
      exact hst' rest tail
    · split <;> rfl
  | @comment c t hc _ ih =>
    obtain ⟨st', hst', hfound⟩ := ih st.nextLine
    refine ⟨st', fun rest tail => ?_, hfound⟩
    have hall : ∀ b ∈ hash :: c, b ≠ 0#8 ∧ b ≠ newline :=
      forall_mem_cons.2 ⟨by decide, hc⟩
    have hstep := @lexStep_hash st hash (c ++ newline :: (t ++ rest ++ tail)) (by decide) rfl
    rw [← cons_append, upTo_newline hall] at hstep
    rw [append_assoc, cons_append, lexLoop_cons (by simpa using hstep), ← hst']
    simp

theorem Blank.between (hw : Blank w) : Between w := by
  induction w with
  | nil => exact .nil
  | cons b w ih => exact .blank (hw b mem_cons_self) (ih fun c hc => hw c (.tail b hc))

/-- A token ends where the search for its end stops, and the loop goes on there. -/
theorem lexLoop_token (hs : s ≠ [])
    (hstep : lexStep st (s ++ (rest ++ tail)) = some (s.length, st.push s next)) :
    lexLoop (s ++ rest) tail st = lexLoop rest tail (st.push s next) := by
  obtain ⟨b, bs, rfl⟩ := exists_cons_of_ne_nil hs
  rw [cons_append, lexLoop_cons (by simpa using hstep)]
  simp

theorem Assignment.Valid.lexLoop_key (ha : a.Valid) (hsearch : st.searchingFor = .variableName) :
    lexLoop (a.key ++ (a.left ++ equals :: rest)) tail st =
      lexLoop (a.left ++ equals :: rest) tail (st.push a.key .operator) := by
  have hup (t : CString) : upToWhitespaceOr equals (a.key ++ (a.left ++ equals :: t)) = a.key := by
    have hkey : ∀ b ∈ a.key, (b ≠ 0#8 && !isWhitespace b && b ≠ equals) = true := fun b hb => by
      simp [ha.key b hb]
    cases hleft : a.left with
    | nil => exact takeWhile_stops hkey (by simp)
    | cons b w => exact takeWhile_stops hkey (by simp [ha.left b (by simp [hleft])])
  refine lexLoop_token ha.key_ne ?_
  obtain ⟨b, bs, hb⟩ := exists_cons_of_ne_nil ha.key_ne
  obtain ⟨hzero, hspace, -⟩ := ha.key b (by simp [hb])
  have hhash : b ≠ hash := fun h => ha.key_head (by simp [hb, h])
  have hstep := @lexStep_name st b (bs ++ (a.left ++ equals :: rest ++ tail))
    ⟨hzero, hhash, hspace⟩ hsearch
  rw [← cons_append, ← hb, append_assoc, cons_append, hup] at hstep
  simpa using hstep

theorem Assignment.Valid.lexLoop_value (ha : a.Valid) (hsearch : st.searchingFor = .data) :
    lexLoop (a.value ++ newline :: rest) tail st =
      lexLoop (newline :: rest) tail (st.push a.value .variableName) := by
  refine lexLoop_token ha.value_ne ?_
  obtain ⟨b, bs, hb⟩ := exists_cons_of_ne_nil ha.value_ne
  obtain ⟨hhash, hspace⟩ := ha.value_head b (by simp [hb])
  have hstep := @lexStep_data st b (bs ++ newline :: (rest ++ tail))
    ⟨(ha.value b (by simp [hb])).1, hhash, hspace⟩ hsearch
  rwa [← cons_append, ← hb, upTo_newline ha.value] at hstep

/-- The tokens of an assignment are found one after the other. -/
theorem Assignment.Valid.lexes (ha : a.Valid) (hsearch : st.searchingFor = .variableName) :
    ∃ st', Lexes a.text st st' ∧
      st'.found = (.variableName, st.found.2.1, st.found.2.2 ++ a.tokens) := by
  obtain ⟨st1, h1, hfound1⟩ := ha.before.lexes st
  obtain ⟨st2, h2, hfound2⟩ := ha.left.between.lexes (st1.push a.key .operator)
  obtain ⟨st3, h3, hfound3⟩ := ha.right.between.lexes (st2.push [equals] .data)
  obtain ⟨st4, h4, hfound4⟩ :=
    (Between.blank (b := newline) rfl .nil).lexes (st3.push a.value .variableName)
  have hsearch1 := (congrArg Prod.fst hfound1).trans hsearch
  have hsearch2 := congrArg Prod.fst hfound2
  have hsearch3 : st3.searchingFor = .data := congrArg Prod.fst hfound3
  refine ⟨st4, h1.trans fun rest tail => ?_, ?_⟩
  · have hoperator : lexStep st2 ([equals] ++ (a.right ++ (a.value ++ newline :: rest) ++ tail)) =
        some (1, st2.push [equals] .data) :=
      lexStep_operator (by constructor <;> decide) hsearch2 rfl
    simp only [append_assoc, cons_append, nil_append]
    rw [ha.lexLoop_key hsearch1, h2, ← singleton_append,
      lexLoop_token (cons_ne_nil _ _) hoperator, h3, ha.lexLoop_value hsearch3]
    exact h4 rest tail
  · rw [hfound4, found_push, hfound3, found_push, hfound2, found_push, hfound1]
    simp [LexState.found, Assignment.tokens, hsearch]

/-- The assignments of a text are found one after the other. -/
theorem lexes_assignments {as : List Assignment} (hall : ∀ a ∈ as, a.Valid)
    (hsearch : st.searchingFor = .variableName) : ∃ st', Lexes (as.flatMap Assignment.text) st st' ∧
      st'.found = (.variableName, st.found.2.1, st.found.2.2 ++ as.flatMap Assignment.tokens) := by
  induction as generalizing st with
  | nil => exact ⟨st, fun _ _ => rfl, by simp [LexState.found, hsearch]⟩
  | cons a as ih =>
    obtain ⟨ha, hall⟩ := forall_mem_cons.1 hall
    obtain ⟨st1, h1, hfound1⟩ := ha.lexes hsearch
    obtain ⟨st2, h2, hfound2⟩ := ih hall (congrArg Prod.fst hfound1)
    refine ⟨st2, h1.trans h2, hfound2.trans ?_⟩
    rw [hfound1]
    simp

/-- The lexer finds the assignments of a text as they were written, and no error. -/
theorem lexed_written {as : List Assignment} (hall : ∀ a ∈ as, a.Valid) {after : CString}
    (hafter : Between after) (tail : List (BitVec 8)) :
    (runLexicalAnalysis (as.flatMap Assignment.text ++ after) tail).found =
      (.variableName, [], as.flatMap Assignment.tokens) := by
  obtain ⟨st, hst, hfound⟩ := @lexes_assignments lexStart as hall rfl
  obtain ⟨st', hst', hfound'⟩ := hafter.lexes st
  have hloop := (hst.trans hst') [] tail
  rw [append_nil, lexLoop.eq_1] at hloop
  rw [runLexicalAnalysis, hloop, hfound', hfound]
  rfl

end Lexed

/-- Two assignments with a comment in between. -/
theorem lexed_written_two :
    (runLexicalAnalysis (bytes "a = 1\n# b\nc=x y\n" ++ []) []).found = (.variableName, [],
      [(.variableName, bytes "a"), (.operator, bytes "="), (.data, bytes "1"),
        (.variableName, bytes "c"), (.operator, bytes "="), (.data, bytes "x y")]) := by
  have hfirst : Assignment.Valid ⟨[], bytes "a", bytes " ", bytes " ", bytes "1"⟩ := by
    constructor <;> first | exact .nil | decide
  have hsecond : Assignment.Valid ⟨hash :: bytes " b" ++ [newline], bytes "c", [], [],
      bytes "x y"⟩ := by
    constructor <;> first | exact .comment (by decide) .nil | decide
  exact @lexed_written [⟨[], bytes "a", bytes " ", bytes " ", bytes "1"⟩, ⟨_, _, _, _, _⟩]
    (forall_mem_cons.2 ⟨hfirst, forall_mem_singleton.2 hsecond⟩) [] .nil []

/-! ## Integers -/

/-- The number with the given digits. -/
def valueOf (base : Nat) (digits : CString) : Nat :=
  Nat.ofDigits base (digits.reverse.map fun ch => (hexValue ch).toNat)

/-- The token of a number in decimal or hexadecimal digits. -/
inductive Numeral : CString → Nat → Prop where
  | decimal {digits : CString} (hne : digits ≠ []) (h : digits.all isDigit = true) :
      Numeral digits (valueOf 10 digits)
  | hex {digits : CString} (h : digits.all isHexDigit = true) :
      Numeral (bytes "0x" ++ digits) (valueOf 16 digits)

section Integers

variable {base k acc : Nat} {s t l : CString}

theorem valueOf_append :
    valueOf base (s ++ t) = valueOf base t + base ^ t.length * valueOf base s := by
  simp [valueOf, Nat.ofDigits_append]

theorem dec2bin_eq (h : s.all isDigit = true) : dec2bin s = BitVec.ofNat 64 (valueOf 10 s) := by
  induction s using reverseRecOn with
  | nil => rfl
  | append_singleton s ch ih =>
    rw [all_append, Bool.and_eq_true, all_cons, all_nil, Bool.and_true] at h
    have ih := ih h.1
    have hch : (ch - 0x30).setWidth 64 = hexValue ch := (if_pos h.2).symm
    rw [dec2bin] at ih ⊢
    rw [foldl_append, foldl_cons, foldl_nil, if_pos h.2, ih, hch, valueOf_append]
    apply BitVec.eq_of_toNat_eq
    simp [valueOf]
    omega

/-- The next digit is put in front of those that are there. -/
theorem or_shiftLeft {v : BitVec 64} (hacc : acc < 16 ^ k) (hlt : acc + 16 ^ k * v.toNat < 2 ^ 64) :
    BitVec.ofNat 64 acc ||| v <<< (k * 4 % 64) = BitVec.ofNat 64 (acc + 16 ^ k * v.toNat) := by
  rcases Nat.eq_zero_or_pos v.toNat with hzero | hpos
  · obtain rfl : v = 0 := BitVec.eq_of_toNat_eq hzero
    simp
  · have hle := Nat.le_mul_of_pos_right (16 ^ k) hpos
    have hk : k < 16 := (Nat.pow_lt_pow_iff_right (show 1 < 16 by decide)).1 (by omega)
    have hshift : v.toNat <<< (k * 4) = 16 ^ k * v.toNat := by
      rw [Nat.shiftLeft_eq, Nat.mul_comm k, Nat.pow_mul, Nat.mul_comm]
    apply BitVec.eq_of_toNat_eq
    rw [BitVec.toNat_or, BitVec.toNat_shiftLeft, BitVec.toNat_ofNat, BitVec.toNat_ofNat,
      Nat.mod_eq_of_lt (show k * 4 < 64 by omega), hshift, Nat.mod_eq_of_lt hlt,
      Nat.mod_eq_of_lt (by omega), Nat.mod_eq_of_lt (by omega), ← hshift, Nat.or_comm,
      Nat.add_comm acc]
    exact (Nat.shiftLeft_add_eq_or_of_lt (by rwa [Nat.mul_comm, Nat.pow_mul]) v.toNat).symm

/-- The loop of `hex2bin` from an index on. -/
theorem foldl_hexValue (hacc : acc < 16 ^ k)
    (hlt : acc + 16 ^ k * Nat.ofDigits 16 (l.map fun ch => (hexValue ch).toNat) < 2 ^ 64) :
    (l.zipIdx k).foldl (fun ret c => ret ||| hexValue c.1 <<< (c.2 * 4 % 64))
      (BitVec.ofNat 64 acc) =
      BitVec.ofNat 64 (acc + 16 ^ k * Nat.ofDigits 16 (l.map fun ch => (hexValue ch).toNat)) := by
  induction l generalizing k acc with
  | nil => simp
  | cons ch l ih =>
    have hch : ∀ ch, (hexValue ch).toNat ≤ 15 := by decide +kernel
    have hle := Nat.mul_le_mul_left (16 ^ k) (hch ch)
    rw [map_cons, Nat.ofDigits_cons, Nat.mul_add, ← Nat.mul_assoc, ← Nat.pow_succ,
      ← Nat.add_assoc] at hlt ⊢
    rw [zipIdx_cons, foldl_cons, @or_shiftLeft k acc (hexValue ch) hacc (by omega)]
    exact ih (by rw [Nat.pow_succ]; omega) hlt

/-- A text that is longer than the largest signed index is not read, or only its beginning is. -/
theorem hex2bin_eq (hlt : valueOf 16 s < 2 ^ 64) :
    hex2bin s = BitVec.ofNat 64 (if s.length ≤ 2 ^ 31 then valueOf 16 s else 0) := by
  have hread {t : CString} (ht : valueOf 16 t < 2 ^ 64) :
      t.reverse.zipIdx.foldl (fun ret c => ret ||| hexValue c.1 <<< (c.2 * 4 % 64)) 0 =
        BitVec.ofNat 64 (valueOf 16 t) := by
    have hfold := @foldl_hexValue 0 0 t.reverse (by decide) (by simpa [valueOf] using ht)
    simpa [valueOf] using hfold
  simp only [hex2bin]
  by_cases hsize : s.length ≤ 2 ^ 31
  · have hmod : s.length % 2 ^ 32 = s.length := by omega
    rw [hmod, if_neg (by omega), if_pos hsize, take_length]
    exact hread hlt
  · split
    · rfl
    · -- what is cut off is longer than any number of 64 bits
      have hsplit := @valueOf_append 16 (s.take (s.length % 2 ^ 32)) (s.drop (s.length % 2 ^ 32))
      rw [take_append_drop, length_drop] at hsplit
      have hpow : 16 ^ 16 ≤ 16 ^ (s.length - s.length % 2 ^ 32) :=
        Nat.pow_le_pow_right (by decide) (by omega)
      have hzero : valueOf 16 (s.take (s.length % 2 ^ 32)) = 0 := by
        by_contra hne
        have hle := Nat.le_mul_of_pos_right (16 ^ (s.length - s.length % 2 ^ 32))
          (Nat.pos_of_ne_zero hne)
        omega
      rw [hread (by omega), hzero]

theorem valueOf_hex (digits : CString) : valueOf 16 (bytes "0x" ++ digits) = valueOf 16 digits := by
  have hzero : valueOf 16 (bytes "0x") = 0 := by decide
  rw [valueOf_append, hzero, Nat.mul_zero, Nat.add_zero]

/-- The element of a token is an integer if the token has a type of integers. -/
theorem processDataToken_eq_integer_iff {stale : Nat → CString} {behind : CString}
    {i : BitVec 64} : processDataToken stale s behind = some (.integer i) ↔
      (strToIntegerType s behind).map (fun type =>
        match type with
        | .hex => hex2bin s
        | .decimal => dec2bin s) = some i := by
  rw [processDataToken]
  rcases strToIntegerType s behind with _ | _ | _
  · dsimp only
    split
    · split <;> simp
    · split <;> simp
  · simp
  · simp

/-- The token of a number is taken for it, unless it is a zero with an `x` behind it in memory, or
has more hexadecimal digits than a signed index counts. -/
theorem processDataToken_numeral_iff {n : Nat} (h : Numeral s n) (hn : n < 2 ^ 64)
    (stale : Nat → CString) (behind : CString) :
    processDataToken stale s behind = some (.integer (BitVec.ofNat 64 n)) ↔
      ¬ (s = bytes "0" ∧ behind.head? = some 0x78) ∧
        (bytes "0x" <+: s → n = 0 ∨ s.length ≤ 2 ^ 31) := by
  rw [processDataToken_eq_integer_iff]
  cases h with
  | decimal hne hall =>
    by_cases hx : s = bytes "0" ∧ behind.head? = some 0x78
    · obtain ⟨rfl, hhead⟩ := hx
      obtain ⟨rest, rfl⟩ := head?_eq_some_iff.1 hhead
      have hnone : strToIntegerType (bytes "0") (0x78 :: rest) = none := rfl
      exact iff_of_false nofun fun hright => hright.1 ⟨rfl, rfl⟩
    · have hprefix : (s ++ behind).take 2 ≠ bytes "0x" := by
        intro hp
        match s, hne with
        | [d], _ =>
          cases behind with
          | nil => cases hp
          | cons b bs =>
            cases hp
            exact hx ⟨rfl, rfl⟩
        | d :: e :: s, _ =>
          cases hp
          cases hall
      have hdec : strToIntegerType s behind = some .decimal := by
        rw [strToIntegerType, if_neg hprefix, if_pos hall]
      have hnot : ¬ bytes "0x" <+: s := by
        rintro ⟨t, rfl⟩
        exact hprefix rfl
      rw [hdec, Option.map_some, dec2bin_eq hall]
      exact iff_of_true rfl ⟨hx, fun hp => absurd hp hnot⟩
  | @hex digits hall =>
    have hhex : strToIntegerType (bytes "0x" ++ digits) behind = some .hex := by
      exact (if_pos rfl).trans (if_pos ⟨Nat.le_add_left 2 digits.length, hall⟩)
    rw [hhex, Option.map_some, hex2bin_eq (by rwa [valueOf_hex]), valueOf_hex]
    have hne : bytes "0x" ++ digits ≠ bytes "0" := fun heq => by cases heq
    by_cases hlen : (bytes "0x" ++ digits).length ≤ 2 ^ 31
    · rw [if_pos hlen]
      exact iff_of_true rfl ⟨fun hx => hne hx.1, fun _ => .inr hlen⟩
    · rw [if_neg hlen]
      constructor
      · intro heq
        have hzero := congrArg BitVec.toNat (Option.some.inj heq)
        rw [BitVec.toNat_ofNat, BitVec.toNat_ofNat, Nat.mod_eq_of_lt hn] at hzero
        exact ⟨fun hx => hne hx.1, fun _ => .inl hzero.symm⟩
      · rintro ⟨-, hread⟩
        rcases hread ⟨digits, rfl⟩ with hzero | hle
        · rw [hzero]
        · exact absurd hle hlen

end Integers

theorem processDataToken_leading_zero : Numeral (bytes "0xfF") 255 ∧
    processDataToken (fun _ => []) (bytes "0xfF") [0] = some (.integer 255) :=
  ⟨.hex (by decide),
    (processDataToken_numeral_iff (.hex (by decide)) (by decide) _ _).2 ⟨by decide, by decide⟩⟩

/-- The element `0` of an array, where an `x` was before. -/
theorem processDataToken_zero_before_x : Numeral (bytes "0") 0 ∧
    processDataToken (fun _ => []) (bytes "0") (bytes "x") ≠ some (.integer 0) := by
  refine ⟨.decimal (by decide) (by decide), ?_⟩
  rw [Ne, processDataToken_eq_integer_iff]
  decide

end Obos.Boot
