import BatchRun.Json.Reader

/-!
# Tokens of JSON Values

The reader accepts the tokens of a value, and no others.

A value has one sequence of tokens: brackets around its items or members, commas between
them, a colon behind each name. The reader keeps what it has read in its stack, so the
tokens that it has consumed can be told from where it stands, and each step consumes one
more. When it stops with a value and an empty stack, these are the tokens of the value.
The other way round, from any place where a value may begin the tokens of a value lead to
the place behind it, whatever the stack holds. Together they say that reading a sequence
of tokens is the inverse of writing it.

## Main definitions

* `Json.tokens`: The tokens of a value.
* `Json.Reading.consumed`: The tokens that were read so far.

## Theorems

* `Json.Reading.consumed_step`, `Json.Reading.consumed_run`: Each token is consumed.
* `Json.Reading.run_tokens`: The tokens of a value lead behind it.
* `Json.ofTokens?_iff`: What a sequence of tokens stands for.
-/

namespace BatchRun

namespace Json

mutual

/-- The tokens of a value. -/
def tokens : Json → List Token
  | null => [.null]
  | bool value => [.bool value]
  | number value => [.number value]
  | text value => [.text value]
  | array items => .arrayStart :: (itemTokens items ++ [.arrayEnd])
  | object members => .objectStart :: (memberTokens members ++ [.objectEnd])
termination_by structural value => value

/-- The tokens of some items, with commas between them. -/
def itemTokens : List Json → List Token
  | [] => []
  | [item] => tokens item
  | item :: next :: rest => tokens item ++ .comma :: itemTokens (next :: rest)
termination_by structural items => items

/-- The tokens of some members, with commas between them. -/
def memberTokens : List (Option String × Json) → List Token
  | [] => []
  | [member] => pairTokens member
  | member :: next :: rest => pairTokens member ++ .comma :: memberTokens (next :: rest)
termination_by structural members => members

/-- The tokens of a member: its name, a colon and its value. -/
def pairTokens : Option String × Json → List Token
  | (name, value) => .text name :: .colon :: tokens value
termination_by structural member => member

end

theorem itemTokens_cons (item next : Json) (rest : List Json) :
    itemTokens (item :: next :: rest) = item.tokens ++ .comma :: itemTokens (next :: rest) := rfl

theorem pairTokens_eq (member : Option String × Json) :
    pairTokens member = .text member.1 :: .colon :: member.2.tokens := by
  rw [pairTokens]

theorem memberTokens_cons (member next : Option String × Json)
    (rest : List (Option String × Json)) :
    memberTokens (member :: next :: rest) =
      pairTokens member ++ .comma :: memberTokens (next :: rest) := rfl

/-- The tokens of an item that another one follows. -/
def itemEnded (item : Json) : List Token := item.tokens ++ [.comma]

/-- The tokens of a member that another one follows. -/
def memberEnded (member : Option String × Json) : List Token := pairTokens member ++ [.comma]

theorem itemTokens_append (items : List Json) (last : Json) :
    itemTokens (items ++ [last]) = items.flatMap itemEnded ++ last.tokens := by
  induction items with
  | nil => rfl
  | cons item rest ih =>
      rw [List.flatMap_cons, List.append_assoc, ← ih, itemEnded, List.append_assoc,
        List.singleton_append]
      cases rest with
      | nil => rfl
      | cons next more => rfl

theorem memberTokens_append (members : List (Option String × Json)) (last : Option String × Json) :
    memberTokens (members ++ [last]) = members.flatMap memberEnded ++ pairTokens last := by
  induction members with
  | nil => rfl
  | cons member rest ih =>
      rw [List.flatMap_cons, List.append_assoc, ← ih, memberEnded, List.append_assoc,
        List.singleton_append]
      cases rest with
      | nil => rfl
      | cons next more => rfl

/-! ### What was consumed -/

/-- The tokens of a container that is not closed, up to the value that is waited for. -/
def Frame.consumed : Frame → List Token
  | array items => .arrayStart :: items.reverse.flatMap itemEnded
  | object members name =>
    .objectStart :: (members.reverse.flatMap memberEnded ++ [.text name, .colon])

/-- The tokens behind the last frame. -/
def Awaiting.consumed : Awaiting → List Token
  | .value => []
  | .firstItem => [.arrayStart]
  | .firstName => [.objectStart]
  | .name members => .objectStart :: members.reverse.flatMap memberEnded
  | .colon members called => .objectStart :: (members.reverse.flatMap memberEnded ++ [.text called])
  | .next complete => complete.tokens

namespace Reading

/-- The tokens that were read so far. -/
def consumed (reading : Reading) : List Token :=
  reading.stack.reverse.flatMap Frame.consumed ++ reading.awaiting.consumed

variable {reading after : Reading} {token : Token} {stack : List Frame}

theorem consumed_push (frame : Frame) (stack : List Frame) (awaiting : Awaiting) :
    consumed ⟨frame :: stack, awaiting⟩ =
      stack.reverse.flatMap Frame.consumed ++ (frame.consumed ++ awaiting.consumed) := by
  rw [consumed, List.reverse_cons, List.flatMap_append, List.flatMap_singleton,
    List.append_assoc]

/-- A token that begins a value is consumed. -/
theorem consumed_begin (h : begin stack token = some after) :
    after.consumed = stack.reverse.flatMap Frame.consumed ++ [token] := by
  cases token with
  | null => rw [← Option.some.inj h]; rfl
  | bool value => rw [← Option.some.inj h]; rfl
  | number value => rw [← Option.some.inj h]; rfl
  | text value => rw [← Option.some.inj h]; rfl
  | arrayStart => rw [← Option.some.inj h]; rfl
  | objectStart => rw [← Option.some.inj h]; rfl
  | arrayEnd => exact absurd h (by simp only [begin, reduceCtorEq, not_false_eq_true])
  | objectEnd => exact absurd h (by simp only [begin, reduceCtorEq, not_false_eq_true])
  | colon => exact absurd h (by simp only [begin, reduceCtorEq, not_false_eq_true])
  | comma => exact absurd h (by simp only [begin, reduceCtorEq, not_false_eq_true])

/-- Behind a value a container goes on or ends. -/
theorem consumed_next {value : Json} (h : step ⟨stack, .next value⟩ token = some after) :
    after.consumed = consumed ⟨stack, .next value⟩ ++ [token] := by
  simp only [step] at h
  split at h
  · -- A comma behind an item, and a bracket behind the last one.
    next items below =>
    rw [← Option.some.inj h, consumed_push, consumed_push]
    simp only [Frame.consumed, Awaiting.consumed, List.reverse_cons, List.flatMap_append,
      List.flatMap_singleton, itemEnded, List.append_nil, List.append_assoc, List.cons_append]
  · next items below =>
    rw [← Option.some.inj h, consumed_push, consumed]
    simp only [Frame.consumed, Awaiting.consumed, List.reverse_cons, tokens, itemTokens_append,
      List.append_assoc, List.cons_append]
  · -- A comma behind a member, and a brace behind the last one.
    next members called below =>
    rw [← Option.some.inj h, consumed_push, consumed]
    simp only [Frame.consumed, Awaiting.consumed, List.reverse_cons, List.flatMap_append,
      List.flatMap_singleton, memberEnded, pairTokens, List.append_assoc, List.cons_append,
      List.nil_append]
  · next members called below =>
    rw [← Option.some.inj h, consumed_push, consumed]
    simp only [Frame.consumed, Awaiting.consumed, List.reverse_cons, tokens, memberTokens_append,
      pairTokens, List.append_assoc, List.cons_append, List.nil_append]
  · exact absurd h (by simp only [reduceCtorEq, not_false_eq_true])

/-- Each step consumes its token. -/
theorem consumed_step (h : reading.step token = some after) :
    after.consumed = reading.consumed ++ [token] := by
  rcases reading with ⟨stack, awaiting⟩
  cases awaiting with
  | value =>
      rw [consumed_begin h, consumed, Awaiting.consumed, List.append_nil]
  | firstItem =>
      simp only [step] at h
      split at h
      · next hend =>
        rw [← Option.some.inj h, hend, consumed, consumed, List.append_assoc]
        rfl
      · rw [consumed_begin h, consumed, List.reverse_cons, List.flatMap_append]
        rfl
  | firstName =>
      cases token <;> simp only [step, reduceCtorEq, Option.some.injEq] at h
      all_goals
        rw [← h, consumed, consumed, List.append_assoc]
        rfl
  | name members =>
      cases token <;> simp only [step, reduceCtorEq, Option.some.injEq] at h
      rw [← h, consumed, consumed, List.append_assoc]
      rfl
  | colon members name =>
      simp only [step] at h
      split at h
      · next hcolon =>
        rw [← Option.some.inj h, hcolon, consumed_push, consumed, List.append_assoc]
        simp only [Frame.consumed, Awaiting.consumed, List.append_nil, List.cons_append,
          List.append_assoc, List.nil_append]
      · exact absurd h (by simp only [reduceCtorEq, not_false_eq_true])
  | next value => exact consumed_next h

/-- A run consumes its tokens. -/
theorem consumed_run {tokens : List Token} (h : reading.run tokens = some after) :
    after.consumed = reading.consumed ++ tokens := by
  -- The place where the run stands changes, so the induction is over all of them.
  induction tokens generalizing reading with
  | nil =>
      rw [← Option.some.inj h, List.append_nil]
  | cons token rest ih =>
      rw [run, List.foldlM_cons] at h
      rcases Option.bind_eq_some_iff.mp h with ⟨middle, hstep, hrest⟩
      rw [ih hrest, consumed_step hstep, List.append_assoc, List.singleton_append]

theorem run_cons {tokens : List Token} (h : reading.step token = some after) :
    reading.run (token :: tokens) = after.run tokens := by
  rw [run, List.foldlM_cons, h]
  rfl

/-- The first token of a value closes nothing. -/
theorem exists_tokens (value : Json) :
    ∃ first rest, value.tokens = first :: rest ∧ first ≠ .arrayEnd := by
  cases value <;> exact ⟨_, _, rfl, by simp only [ne_eq, reduceCtorEq, not_false_eq_true]⟩

/-- Readings that take the next token alike go on alike. -/
theorem run_congr {other : Reading} {first : Token} (h : reading.step first = other.step first)
    (rest : List Token) : reading.run (first :: rest) = other.run (first :: rest) := by
  rw [run, run, List.foldlM_cons, List.foldlM_cons, h]

/-- Behind an opening bracket the first item is read like any other. -/
theorem run_itemTokens (stack : List Frame) (item : Json) (items : List Json)
    (rest : List Token) :
    run ⟨stack, .firstItem⟩ (itemTokens (item :: items) ++ rest) =
      run ⟨.array [] :: stack, .value⟩ (itemTokens (item :: items) ++ rest) := by
  rcases exists_tokens item with ⟨first, more, htokens, hfirst⟩
  have hitems : ∃ others, itemTokens (item :: items) = first :: others := by
    cases items with
    | nil => exact ⟨more, htokens⟩
    | cons next items => exact ⟨_, (itemTokens_cons item next items).trans (by rw [htokens]; rfl)⟩
  rcases hitems with ⟨others, hothers⟩
  rw [hothers, List.cons_append]
  exact run_congr (by simp only [step, hfirst, if_false]) _

/-- Behind an opening brace the first member is read like any other. -/
theorem run_memberTokens (stack : List Frame) (member : Option String × Json)
    (members : List (Option String × Json)) (rest : List Token) :
    run ⟨stack, .firstName⟩ (memberTokens (member :: members) ++ rest) =
      run ⟨stack, .name []⟩ (memberTokens (member :: members) ++ rest) := by
  have hmembers : ∃ others, memberTokens (member :: members) = .text member.1 :: others := by
    cases members with
    | nil => exact ⟨_, pairTokens_eq member⟩
    | cons next members =>
        exact ⟨_, (memberTokens_cons member next members).trans (by rw [pairTokens_eq]; rfl)⟩
  rcases hmembers with ⟨others, hothers⟩
  rw [hothers, List.cons_append]
  exact run_congr rfl _

mutual

/-- The tokens of a value lead behind it. -/
theorem run_tokens (stack : List Frame) (value : Json) (rest : List Token) :
    run ⟨stack, .value⟩ (value.tokens ++ rest) = run ⟨stack, .next value⟩ rest := by
  match value with
  | .null => exact run_cons rfl
  | .bool value => exact run_cons rfl
  | .number value => exact run_cons rfl
  | .text value => exact run_cons rfl
  | .array [] => exact (run_cons rfl).trans (run_cons rfl)
  | .array (item :: items) =>
      have hopen : step ⟨stack, .value⟩ .arrayStart = some ⟨stack, .firstItem⟩ := rfl
      have hitems := run_items stack [] (item :: items) (List.cons_ne_nil _ _) rest
      rw [tokens, List.cons_append, List.append_assoc, List.singleton_append, run_cons hopen,
        run_itemTokens]
      exact hitems
  | .object [] => exact (run_cons rfl).trans (run_cons rfl)
  | .object (member :: members) =>
      have hopen : step ⟨stack, .value⟩ .objectStart = some ⟨stack, .firstName⟩ := rfl
      have hmembers := run_members stack [] (member :: members) (List.cons_ne_nil _ _) rest
      rw [tokens, List.cons_append, List.append_assoc, List.singleton_append, run_cons hopen,
        run_memberTokens]
      exact hmembers

/-- Items with commas between them are read behind those that were read already. -/
theorem run_items (stack : List Frame) (read items : List Json) (hne : items ≠ [])
    (rest : List Token) :
    run ⟨.array read :: stack, .value⟩ (itemTokens items ++ .arrayEnd :: rest) =
      run ⟨stack, .next (.array (read.reverse ++ items))⟩ rest := by
  match items with
  | [] => exact absurd rfl hne
  | [item] =>
      rw [itemTokens, run_tokens (.array read :: stack) item, run_cons rfl, List.reverse_cons]
  | item :: next :: more =>
      have hmore := run_items stack (item :: read) (next :: more) (List.cons_ne_nil _ _) rest
      rw [itemTokens_cons, List.append_assoc, run_tokens (.array read :: stack) item,
        List.cons_append, run_cons rfl, hmore, List.reverse_cons, List.append_assoc,
        List.singleton_append]

/-- Members with commas between them are read behind those that were read already. -/
theorem run_members (stack : List Frame) (read members : List (Option String × Json))
    (hne : members ≠ []) (rest : List Token) :
    run ⟨stack, .name read⟩ (memberTokens members ++ .objectEnd :: rest) =
      run ⟨stack, .next (.object (read.reverse ++ members))⟩ rest := by
  match members with
  | [] => exact absurd rfl hne
  | [(name, value)] =>
      rw [memberTokens, pairTokens, List.cons_append, List.cons_append,
        run_cons rfl, run_cons rfl, run_tokens (.object read name :: stack) value,
        run_cons rfl, List.reverse_cons]
  | (name, value) :: next :: more =>
      have hmore := run_members stack ((name, value) :: read) (next :: more) (List.cons_ne_nil _ _)
        rest
      rw [memberTokens_cons, pairTokens, List.append_assoc, List.cons_append, List.cons_append,
        run_cons rfl, run_cons rfl, run_tokens (.object read name :: stack) value,
        List.cons_append, run_cons rfl, hmore, List.reverse_cons, List.append_assoc,
        List.singleton_append]

end

end Reading

/-- A sequence of tokens stands for the value whose tokens it consists of. -/
theorem ofTokens?_iff {tokens : List Token} {value : Json} :
    ofTokens? tokens = some value ↔ tokens = value.tokens := by
  constructor
  · intro h
    rw [ofTokens?] at h
    split at h
    · next found hrun =>
      rw [Option.some.injEq] at h
      -- With an empty stack and a complete value nothing else was consumed.
      have hconsumed := Reading.consumed_run hrun
      rw [← h]
      exact hconsumed.symm
    · exact absurd h (by simp only [reduceCtorEq, not_false_eq_true])
  · intro h
    have hrun := Reading.run_tokens [] value []
    rw [List.append_nil, ← h] at hrun
    rw [ofTokens?, hrun]
    rfl

end Json

end BatchRun
