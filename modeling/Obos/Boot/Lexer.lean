import Obos.Vfs.Path

/-!
# The lexer of the configuration file

`RunLexicalAnalysis` goes over the bytes of a buffer and looks in turn for the name of a
variable, an operator and data. It looks at a byte only if it is in the buffer, but the ends
of names, data and comments are searched for without regard to the size of the buffer.

`lexLoop_of_openData` and `lexLoop_of_closed` say what that means: what follows the buffer
can become a part of the last token, and of no other; the errors do not depend on it.
-/

namespace Obos.Boot

open Vfs List

/-! ## The program -/

/-- The character `'\n'`. -/
def newline : BitVec 8 := 0x0a

/-- The character `'='`. -/
def equals : BitVec 8 := 0x3d

/-- The character `'#'`. -/
def hash : BitVec 8 := 0x23

/-- `tokenType`, without the one of array elements. -/
inductive TokenType where
  | variableName
  | operator
  | data
  deriving DecidableEq

/-- `token`. -/
structure Token where
  contents : CString
  type : TokenType
  line : Nat
  character : Nat

/-- `isWhitespace`. -/
def isWhitespace (ch : BitVec 8) : Bool :=
  ch = 0x20 || ch = 0x09 || ch = newline || ch = 0x0b || ch = 0x0c || ch = 0x0d

/-- The bytes in front of a zero or a character. -/
def upTo (ch : BitVec 8) (memory : List (BitVec 8)) : CString :=
  memory.takeWhile fun b => b ≠ 0#8 && b ≠ ch

/-- The bytes `countToWhitespaceOrChar` counts. -/
def upToWhitespaceOr (ch : BitVec 8) (memory : List (BitVec 8)) : CString :=
  memory.takeWhile fun b => b ≠ 0#8 && !isWhitespace b && b ≠ ch

/-- The variables of `RunLexicalAnalysis`, and what it has found. -/
structure LexState where
  searchingFor : TokenType
  line : Nat
  character : Nat
  errorMessages : List CString
  tokens : List Token

/-- The message for a character in the place of an operator. -/
def expectedOperator (line character : Nat) (got : BitVec 8) : CString :=
  bytes "Line " ++ printDecimal (BitVec.ofNat 32 line) ++ bytes ":" ++
    printDecimal (BitVec.ofNat 32 character) ++ bytes ", Syntax error: Expected '=', got " ++ [got]

/-- A token is found, and another one is searched for. -/
def LexState.push (st : LexState) (contents : CString) (next : TokenType) : LexState :=
  { st with
    searchingFor := next
    character := st.character + contents.length
    tokens := st.tokens ++ [⟨contents, st.searchingFor, st.line, st.character⟩] }

/-- The next line. -/
def LexState.nextLine (st : LexState) : LexState :=
  { st with line := st.line + 1, character := 1 }

/-- The body of the loop at the given memory: how far it goes on, and the variables after it. There
is a zero where the memory ends. -/
def lexStep (st : LexState) : List (BitVec 8) → Option (Nat × LexState)
  | [] => none
  | b :: bs =>
    if b = 0#8 then none
    else if b = hash then some ((upTo newline (b :: bs)).length + 1, st.nextLine)
    else if isWhitespace b then
      some (1, if b = newline then st.nextLine else { st with character := st.character + 1 })
    else
      match st.searchingFor with
      | .variableName =>
        let contents := upToWhitespaceOr equals (b :: bs)
        some (contents.length, st.push contents .operator)
      | .operator =>
        if b ≠ equals then
          some ((upTo newline (b :: bs)).length + 1, { st.nextLine with
            errorMessages := st.errorMessages ++ [expectedOperator st.line st.character b]
            searchingFor := .variableName })
        else some (1, st.push [equals] .data)
      | .data =>
        let contents := upTo newline (b :: bs)
        some (contents.length, st.push contents .variableName)

variable {st st' : LexState} {n : Nat}

/-- The body of the loop goes on, or has found an empty name. -/
theorem lexStep_progress {b : BitVec 8} {bs : List (BitVec 8)}
    (h : lexStep st (b :: bs) = some (n, st')) :
    0 < n ∨ st.searchingFor = .variableName ∧ st'.searchingFor = .operator := by
  rw [lexStep] at h
  split at h
  · cases h
  rename_i hzero
  split at h
  · cases h
    exact .inl (Nat.succ_pos _)
  split at h
  · cases h
    exact .inl Nat.one_pos
  rename_i hspace
  split at h
  · rename_i hsearch
    cases h
    exact .inr ⟨hsearch, rfl⟩
  · split at h <;> cases h
    · exact .inl (Nat.succ_pos _)
    · exact .inl Nat.one_pos
  · cases h
    have hline : b ≠ newline := fun heq => hspace (by simp [heq, isWhitespace])
    refine .inl ?_
    rw [upTo, takeWhile_cons_of_pos (by simp [hzero, hline])]
    exact Nat.succ_pos _

/-- What is left to do after the body of the loop. -/
theorem lexStep_decreases {b : BitVec 8} {bs memory : List (BitVec 8)}
    (h : lexStep st (b :: memory) = some (n, st')) :
    2 * ((b :: bs).drop n).length + (if st'.searchingFor = .variableName then 1 else 0) <
      2 * (b :: bs).length + if st.searchingFor = .variableName then 1 else 0 := by
  rw [length_drop, length_cons]
  rcases lexStep_progress h with hpos | ⟨hname, hop⟩
  · split <;> omega
  · rw [hname, hop]
    simp only [if_true, reduceCtorEq, if_false]
    omega

/-- The loop of `RunLexicalAnalysis`: the bytes of the buffer that are left, and what follows the
buffer. -/
def lexLoop (rest tail : List (BitVec 8)) (st : LexState) : LexState :=
  match rest with
  | [] => st
  | b :: bs =>
    match _h : lexStep st (b :: (bs ++ tail)) with
    | none => st
    | some (n, st') => lexLoop ((b :: bs).drop n) tail st'
termination_by 2 * rest.length + if st.searchingFor = .variableName then 1 else 0
decreasing_by exact lexStep_decreases _h

/-- The variables at the beginning. -/
def lexStart : LexState := ⟨.variableName, 1, 0, [], []⟩

/-- `RunLexicalAnalysis`. -/
def runLexicalAnalysis (data tail : List (BitVec 8)) : LexState := lexLoop data tail lexStart

/-! ## The order of the tokens -/

/-- Tokens as the lexer finds them, with the type it searches for next. -/
inductive Ordered : List Token → TokenType → Prop where
  | start : Ordered [] .variableName
  | name {tokens : List Token} {tok : Token} (h : Ordered tokens .variableName)
      (htype : tok.type = .variableName) : Ordered (tokens ++ [tok]) .operator
  | operator {tokens : List Token} {tok : Token} (h : Ordered tokens .operator)
      (htype : tok.type = .operator) : Ordered (tokens ++ [tok]) .data
  | data {tokens : List Token} {tok : Token} (h : Ordered tokens .data)
      (htype : tok.type = .data) : Ordered (tokens ++ [tok]) .variableName

/-- The lexer has found its tokens in order, or an error. -/
def LexState.Orderly (st : LexState) : Prop :=
  st.errorMessages = [] → Ordered st.tokens st.searchingFor

/-- The body of the loop keeps the order. -/
theorem lexStep_orderly {memory : List (BitVec 8)} (hst : st.Orderly)
    (h : lexStep st memory = some (n, st')) : st'.Orderly := by
  intro herrors
  cases memory with
  | nil => cases h
  | cons b bs =>
    rw [lexStep] at h
    split at h
    · cases h
    split at h
    · cases h
      exact hst herrors
    split at h
    · cases h
      split at herrors <;> split <;> exact hst herrors
    split at h
    · rename_i hsearch
      cases h
      have hord := hst herrors
      rw [hsearch] at hord
      exact .name hord hsearch
    · rename_i hsearch
      split at h <;> cases h
      · exact absurd herrors (by simp)
      · have hord := hst herrors
        rw [hsearch] at hord
        exact .operator hord hsearch
    · rename_i hsearch
      cases h
      have hord := hst herrors
      rw [hsearch] at hord
      exact .data hord hsearch

/-! ## The end of the buffer -/

/-- The bytes are the beginning of data without an end. -/
def isOpenData (st : LexState) (rest : List (BitVec 8)) : Bool :=
  st.searchingFor = .data && rest.all (fun b => b ≠ 0#8 && b ≠ newline) &&
    match rest with
    | [] => false
    | b :: _ => b ≠ hash && !isWhitespace b

/-- The data that goes on behind the end of the buffer. -/
def openData (rest : List (BitVec 8)) (st : LexState) : Option CString :=
  match rest with
  | [] => none
  | b :: bs =>
    if isOpenData st (b :: bs) then some (b :: bs)
    else
      match _h : lexStep st (b :: bs) with
      | none => none
      | some (n, st') => openData ((b :: bs).drop n) st'
termination_by 2 * rest.length + if st.searchingFor = .variableName then 1 else 0
decreasing_by exact lexStep_decreases _h

section Tail

variable {st : LexState} {b : BitVec 8} {bs rest : List (BitVec 8)}

/-- A search that ends in the buffer does not see what follows. -/
theorem takeWhile_append_of_exists {p : BitVec 8 → Bool} (h : rest.all p = false)
    (tail : List (BitVec 8)) : (rest ++ tail).takeWhile p = rest.takeWhile p := by
  rw [takeWhile_append, if_neg]
  intro hlen
  have hall := takeWhile_eq_self_iff.1 ((List.takeWhile_prefix p).eq_of_length hlen)
  rw [all_eq_true.2 hall] at h
  cases h

theorem takeWhile_append_of_all {p : BitVec 8 → Bool} (h : rest.all p = true)
    (tail : List (BitVec 8)) : (rest ++ tail).takeWhile p = rest ++ tail.takeWhile p :=
  takeWhile_append_of_pos (all_eq_true.1 h)

/-- What the body of the loop does at the rest of the buffer, whatever follows, if that is not data
without an end: it ends the loop, it goes on in the same way, or it finds a name that goes on behind
the end. -/
inductive LexStep.AtRest (st : LexState) (rest : List (BitVec 8)) : Prop where
  | ends (h : ∀ tail, lexStep st (rest ++ tail) = none)
  | goesOn (n : Nat) (st' : LexState) (h : ∀ tail, ∃ n', lexStep st (rest ++ tail) =
      some (n', st') ∧ rest.drop n' = rest.drop n)
  | openName (hsearch : st.searchingFor = .variableName)
      (h : ∀ tail, ∃ n' contents, lexStep st (rest ++ tail) =
        some (n', st.push contents .operator) ∧ rest.drop n' = [])

/-- A search for the end of the line ends where it ends in the buffer, or behind the buffer. -/
theorem drop_upTo (tail : List (BitVec 8)) :
    rest.drop ((upTo newline (rest ++ tail)).length + 1) =
      rest.drop ((upTo newline rest).length + 1) := by
  cases hall : rest.all fun b => b ≠ 0#8 && b ≠ newline with
  | false => rw [upTo, upTo, takeWhile_append_of_exists hall]
  | true =>
    have hself : upTo newline rest = rest :=
      takeWhile_eq_self_iff.2 (all_eq_true.1 hall)
    rw [hself, upTo, takeWhile_append_of_all hall, length_append]
    rw [drop_eq_nil_of_le (by omega), drop_eq_nil_of_le (by omega)]

theorem lexStep_hash (hzero : b ≠ 0#8) (hhash : b = hash) :
    lexStep st (b :: bs) = some ((upTo newline (b :: bs)).length + 1, st.nextLine) := by
  rw [lexStep, if_neg hzero, if_pos hhash]

theorem lexStep_space (hzero : b ≠ 0#8) (hhash : b ≠ hash) (hspace : isWhitespace b = true) :
    lexStep st (b :: bs) = some (1,
      if b = newline then st.nextLine else { st with character := st.character + 1 }) := by
  rw [lexStep, if_neg hzero, if_neg hhash, if_pos hspace]

/-- A byte that begins a token. -/
structure Begins (b : BitVec 8) : Prop where
  not_zero : b ≠ 0#8
  not_hash : b ≠ hash
  not_space : isWhitespace b = false

theorem lexStep_name (hb : Begins b) (hsearch : st.searchingFor = .variableName) :
    lexStep st (b :: bs) = some ((upToWhitespaceOr equals (b :: bs)).length,
      st.push (upToWhitespaceOr equals (b :: bs)) .operator) := by
  rw [lexStep, if_neg hb.not_zero, if_neg hb.not_hash, hb.not_space, if_neg Bool.false_ne_true,
    hsearch]

/-- The body of the loop at a character in the place of an operator. -/
theorem lexStep_error (hb : Begins b) (hsearch : st.searchingFor = .operator) (hne : b ≠ equals) :
    lexStep st (b :: bs) = some ((upTo newline (b :: bs)).length + 1, { st.nextLine with
      errorMessages := st.errorMessages ++ [expectedOperator st.line st.character b]
      searchingFor := .variableName }) := by
  rw [lexStep, if_neg hb.not_zero, if_neg hb.not_hash, hb.not_space, hsearch]
  exact if_pos hne

theorem lexStep_operator (hb : Begins b) (hsearch : st.searchingFor = .operator)
    (heq : b = equals) : lexStep st (b :: bs) = some (1, st.push [equals] .data) := by
  rw [lexStep, if_neg hb.not_zero, if_neg hb.not_hash, hb.not_space, hsearch]
  exact if_neg (not_not.2 heq)

theorem lexStep_data (hb : Begins b) (hsearch : st.searchingFor = .data) :
    lexStep st (b :: bs) = some ((upTo newline (b :: bs)).length,
      st.push (upTo newline (b :: bs)) .variableName) := by
  rw [lexStep, if_neg hb.not_zero, if_neg hb.not_hash, hb.not_space, if_neg Bool.false_ne_true,
    hsearch]

/-- Data is open where it has no end in the buffer. -/
theorem isOpenData_iff : isOpenData st (b :: bs) = true ↔
    st.searchingFor = .data ∧ Begins b ∧
      (b :: bs).all (fun b => b ≠ 0#8 && b ≠ newline) = true := by
  simp only [isOpenData, Bool.and_eq_true, decide_eq_true_eq, Bool.not_eq_true']
  constructor
  · rintro ⟨⟨hsearch, hall⟩, hhash, hspace⟩
    have hzero := all_eq_true.1 hall b mem_cons_self
    simp only [Bool.and_eq_true, decide_eq_true_eq] at hzero
    exact ⟨hsearch, ⟨hzero.1, hhash, hspace⟩, hall⟩
  · rintro ⟨hsearch, hb, hall⟩
    exact ⟨⟨hsearch, hall⟩, hb.not_hash, hb.not_space⟩

/-- Data without an end goes on with what follows. -/
theorem lexStep_of_isOpenData (hopen : isOpenData st (b :: bs) = true) (tail : List (BitVec 8)) :
    ∃ n, lexStep st (b :: bs ++ tail) =
      some (n, st.push (b :: bs ++ upTo newline tail) .variableName) ∧ (b :: bs).drop n = [] := by
  obtain ⟨hsearch, hb, hall⟩ := isOpenData_iff.1 hopen
  refine ⟨(b :: bs ++ upTo newline tail).length, ?_, drop_eq_nil_of_le ?_⟩
  · rw [cons_append, lexStep_data hb hsearch, ← cons_append, upTo,
      takeWhile_append_of_all hall]
    rfl
  · rw [length_append]
    omega

theorem lexStep_atRest (hclosed : isOpenData st (b :: bs) ≠ true) :
    LexStep.AtRest st (b :: bs) := by
  by_cases hzero : b = 0#8
  · exact .ends fun tail => by rw [cons_append, lexStep, if_pos hzero]
  by_cases hhash : b = hash
  · exact .goesOn ((upTo newline (b :: bs)).length + 1) st.nextLine fun tail =>
      ⟨(upTo newline (b :: bs ++ tail)).length + 1, lexStep_hash hzero hhash, drop_upTo tail⟩
  cases hspace : isWhitespace b with
  | true => exact .goesOn 1 _ fun tail => ⟨1, lexStep_space hzero hhash hspace, rfl⟩
  | false =>
    have hb : Begins b := ⟨hzero, hhash, hspace⟩
    cases hsearch : st.searchingFor with
    | variableName =>
      cases hall : (b :: bs).all fun b => b ≠ 0#8 && !isWhitespace b && b ≠ equals with
      | false =>
        let contents := upToWhitespaceOr equals (b :: bs)
        refine .goesOn contents.length (st.push contents .operator) fun tail =>
          ⟨contents.length, ?_, rfl⟩
        rw [cons_append, lexStep_name hb hsearch, ← cons_append, upToWhitespaceOr,
          takeWhile_append_of_exists hall]
        rfl
      | true =>
        refine .openName hsearch fun tail =>
          ⟨(upToWhitespaceOr equals (b :: bs ++ tail)).length,
          _, lexStep_name hb hsearch, drop_eq_nil_of_le ?_⟩
        rw [upToWhitespaceOr, takeWhile_append_of_all hall, length_append]
        omega
    | operator =>
      by_cases heq : b = equals
      · exact .goesOn 1 _ fun tail => ⟨1, lexStep_operator hb hsearch heq, rfl⟩
      · exact .goesOn ((upTo newline (b :: bs)).length + 1) _ fun tail =>
          ⟨(upTo newline (b :: bs ++ tail)).length + 1, lexStep_error hb hsearch heq,
            drop_upTo tail⟩
    | data =>
      cases hall : (b :: bs).all fun b => b ≠ 0#8 && b ≠ newline with
      | false =>
        let contents := upTo newline (b :: bs)
        refine .goesOn contents.length (st.push contents .variableName) fun tail =>
          ⟨contents.length, ?_, rfl⟩
        rw [cons_append, lexStep_data hb hsearch, ← cons_append, upTo,
          takeWhile_append_of_exists hall]
        rfl
      | true => exact absurd (isOpenData_iff.2 ⟨hsearch, hb, hall⟩) hclosed

variable {st' : LexState} {n : Nat}

theorem lexLoop_eq (tail : List (BitVec 8)) : lexLoop (b :: bs) tail st =
    match lexStep st (b :: (bs ++ tail)) with
    | none => st
    | some (n, st') => lexLoop ((b :: bs).drop n) tail st' := by
  rw [lexLoop]
  split
  · rename_i h
    rw [h]
  · rename_i h
    rw [h]

/-- The loop goes on. -/
theorem lexLoop_cons {tail : List (BitVec 8)} (h : lexStep st (b :: bs ++ tail) = some (n, st')) :
    lexLoop (b :: bs) tail st = lexLoop ((b :: bs).drop n) tail st' := by
  rw [cons_append] at h
  rw [lexLoop_eq, h]

theorem lexLoop_last {tail : List (BitVec 8)} (h : lexStep st (b :: bs ++ tail) = some (n, st'))
    (hdrop : (b :: bs).drop n = []) : lexLoop (b :: bs) tail st = st' := by
  rw [lexLoop_cons h, hdrop, lexLoop]

/-- Where the loop goes on in the buffer, it goes on in the same way whatever follows. -/
theorem lexLoop_goesOn {n0 : Nat} {st0 : LexState} (hstep : lexStep st (b :: bs) = some (n, st'))
    (h : ∀ tail, ∃ n', lexStep st (b :: bs ++ tail) = some (n', st0) ∧
      (b :: bs).drop n' = (b :: bs).drop n0) (tail : List (BitVec 8)) :
    lexLoop (b :: bs) tail st = lexLoop ((b :: bs).drop n) tail st' := by
  obtain ⟨n', hn', hdrop'⟩ := h []
  rw [append_nil, hstep] at hn'
  cases hn'
  obtain ⟨n'', hn'', hdrop''⟩ := h tail
  rw [lexLoop_cons hn'', hdrop'', hdrop']

/-- The data that goes on behind the end is searched for as the lexer searches. -/
theorem openData_cons (hclosed : isOpenData st (b :: bs) ≠ true)
    (h : lexStep st (b :: bs) = some (n, st')) :
    openData (b :: bs) st = openData ((b :: bs).drop n) st' := by
  rw [openData, if_neg hclosed]
  split
  · rename_i hnone
    rw [h] at hnone
    cases hnone
  · rename_i hsome
    rw [h] at hsome
    cases hsome
    rfl

/-- Data that goes on behind the end of the buffer is the last token, and goes on with what
follows; the tokens in front of it are in order. -/
theorem lexLoop_of_openData {x : CString} (hst : st.Orderly) (h : openData rest st = some x) :
    x ≠ [] ∧ ∃ st' : LexState, st'.Orderly ∧ st'.searchingFor = .data ∧ ∀ tail,
      lexLoop rest tail st = st'.push (x ++ upTo newline tail) .variableName := by
  induction rest, st using openData.induct with
  | case1 st =>
    rw [openData] at h
    cases h
  | case2 st b bs hopen =>
    rw [openData, if_pos hopen] at h
    cases h
    refine ⟨cons_ne_nil _ _, st, hst, (isOpenData_iff.1 hopen).1, fun tail => ?_⟩
    obtain ⟨n, hn, hdrop⟩ := lexStep_of_isOpenData hopen tail
    exact lexLoop_last hn hdrop
  | case3 st b bs hclosed hstep =>
    rw [openData, if_neg hclosed] at h
    split at h
    · cases h
    · rename_i hsome
      rw [hstep] at hsome
      cases hsome
  | case4 st b bs hclosed n st' hstep ih =>
    rw [openData_cons hclosed hstep] at h
    cases lexStep_atRest hclosed with
    | ends hends =>
      have hnone := hends []
      rw [append_nil, hstep] at hnone
      cases hnone
    | goesOn n0 st0 hgoes =>
      obtain ⟨hne, st1, hst1, hsearch, hloop⟩ := ih (lexStep_orderly hst hstep) h
      exact ⟨hne, st1, hst1, hsearch, fun tail =>
        (lexLoop_goesOn hstep hgoes tail).trans (hloop tail)⟩
    | openName hsearch hname =>
      obtain ⟨n', contents, hn', hdrop⟩ := hname []
      rw [append_nil, hstep] at hn'
      cases hn'
      rw [hdrop, openData] at h
      cases h

/-- If no data goes on behind the end of the buffer, what follows can only be a part of a name at
the end. -/
theorem lexLoop_of_closed (hst : st.Orderly) (h : openData rest st = none) :
    ∃ st' : LexState, st'.Orderly ∧ ∀ tail, lexLoop rest tail st = st' ∨
      st'.searchingFor = .variableName ∧
        ∃ contents, lexLoop rest tail st = st'.push contents .operator := by
  induction rest, st using openData.induct with
  | case1 st =>
    refine ⟨st, hst, fun tail => .inl ?_⟩
    rw [lexLoop]
  | case2 st b bs hopen =>
    rw [openData, if_pos hopen] at h
    cases h
  | case3 st b bs hclosed hstep =>
    cases lexStep_atRest hclosed with
    | ends hends =>
      refine ⟨st, hst, fun tail => .inl ?_⟩
      have hnone := hends tail
      rw [cons_append] at hnone
      rw [lexLoop_eq, hnone]
    | goesOn n0 st0 hgoes =>
      obtain ⟨n', hn', -⟩ := hgoes []
      rw [append_nil, hstep] at hn'
      cases hn'
    | openName hsearch hname =>
      obtain ⟨n', contents, hn', -⟩ := hname []
      rw [append_nil, hstep] at hn'
      cases hn'
  | case4 st b bs hclosed n st' hstep ih =>
    rw [openData_cons hclosed hstep] at h
    cases lexStep_atRest hclosed with
    | ends hends =>
      have hnone := hends []
      rw [append_nil, hstep] at hnone
      cases hnone
    | goesOn n0 st0 hgoes =>
      obtain ⟨st1, hst1, hloop⟩ := ih (lexStep_orderly hst hstep) h
      refine ⟨st1, hst1, fun tail => ?_⟩
      rw [lexLoop_goesOn hstep hgoes tail]
      exact hloop tail
    | openName hsearch hname =>
      refine ⟨st, hst, fun tail => .inr ⟨hsearch, ?_⟩⟩
      obtain ⟨n', contents, hn', hdrop⟩ := hname tail
      exact ⟨contents, lexLoop_last hn' hdrop⟩

end Tail

/-! ## The turns of the loop -/

/-- The loop with the turns it may take, if it ends within them. -/
def lexTurns (tail : List (BitVec 8)) : Nat → List (BitVec 8) → LexState → Option LexState
  | _, [], st => some st
  | 0, _ :: _, _ => none
  | turns + 1, b :: bs, st =>
    match lexStep st (b :: (bs ++ tail)) with
    | none => some st
    | some (n, st') => lexTurns tail turns ((b :: bs).drop n) st'

theorem lexTurns_eq {tail : List (BitVec 8)} (turns : Nat) {rest : List (BitVec 8)}
    (h : 2 * rest.length + (if st.searchingFor = .variableName then 1 else 0) ≤ turns) :
    lexTurns tail turns rest st = some (lexLoop rest tail st) := by
  induction turns generalizing rest st with
  | zero =>
    obtain rfl : rest = [] := eq_nil_of_length_eq_zero (by omega)
    rw [lexTurns, lexLoop]
  | succ turns ih =>
    cases rest with
    | nil => rw [lexTurns, lexLoop]
    | cons b bs =>
      cases hstep : lexStep st (b :: (bs ++ tail)) with
      | none =>
        rw [lexTurns, lexLoop_eq, hstep]
      | some next =>
        rw [lexTurns, hstep, lexLoop_cons hstep]
        exact ih (Nat.le_of_lt_succ ((lexStep_decreases hstep).trans_le h))

/-- The loop ends after at most two turns for each byte, whatever the bytes are. -/
theorem runLexicalAnalysis_ends (data tail : List (BitVec 8)) :
    lexTurns tail (2 * data.length + 1) data lexStart = some (runLexicalAnalysis data tail) :=
  lexTurns_eq _ (Nat.le_refl _)

end Obos.Boot
