/-!
Blocks of statements that may end early, by a `return` or by an exception, over a state that they
change, and the rules for what holds at their end.
-/

namespace ObjectStorage.Library

/-- How a block ends: with a value for the next statement, by a `return` or by an exception. -/
inductive Exit (ε ρ α : Type) where
  | next (a : α)
  | returned (r : ρ)
  | raised (e : ε)
  deriving DecidableEq, Repr

/-- A block of statements over a state. -/
def Block (σ ε ρ α : Type) : Type := σ → Exit ε ρ α × σ

namespace Block

variable {σ ε ρ α β : Type}

instance : Monad (Block σ ε ρ) where
  pure a := fun s => (.next a, s)
  bind b f := fun s =>
    match b s with
    | (.next a, s') => f a s'
    | (.returned r, s') => (.returned r, s')
    | (.raised e, s') => (.raised e, s')

def returning (r : ρ) : Block σ ε ρ α := fun s => (.returned r, s)

def raising (e : ε) : Block σ ε ρ α := fun s => (.raised e, s)

/-- `try` with its `except` clauses: what is done about an exception, if a clause takes it. -/
def attempt (body : Block σ ε ρ α) (clauses : ε → Option (Block σ ε ρ α)) : Block σ ε ρ α :=
  fun s =>
    match body s with
    | (.raised e, s') =>
        match clauses e with
        | some clause => clause s'
        | none => (.raised e, s')
    | ended => ended

/-- `with`: the exit of the context is executed however the body ends. -/
def within (body : Block σ ε ρ α) (exit : Block σ ε ρ Unit) : Block σ ε ρ α := fun s =>
  match body s with
  | (ended, s') =>
      match exit s' with
      | (.raised e, s'') => (.raised e, s'')
      | (_, s'') => (ended, s'')

/-- `Q` holds when the block has ended. -/
def Ends (b : Block σ ε ρ α) (Q : Exit ε ρ α → σ → Prop) (s : σ) : Prop := Q (b s).1 (b s).2

variable {s : σ}

@[simp] theorem ends_pure {a : α} {Q : Exit ε ρ α → σ → Prop} :
    Ends (pure a) Q s ↔ Q (.next a) s := Iff.rfl

@[simp] theorem ends_returning {r : ρ} {Q : Exit ε ρ α → σ → Prop} :
    Ends (returning r) Q s ↔ Q (.returned r) s := Iff.rfl

@[simp] theorem ends_raising {e : ε} {Q : Exit ε ρ α → σ → Prop} :
    Ends (raising e) Q s ↔ Q (.raised e) s := Iff.rfl

@[simp] theorem ends_bind {b : Block σ ε ρ α} {f : α → Block σ ε ρ β}
    {Q : Exit ε ρ β → σ → Prop} :
    Ends (b >>= f) Q s ↔ Ends b (fun ended s' =>
      match ended with
      | .next a => Ends (f a) Q s'
      | .returned r => Q (.returned r) s'
      | .raised e => Q (.raised e) s') s := by
  show Q _ _ ↔ _
  simp only [Ends, bind]
  split <;> simp_all

@[simp] theorem ends_attempt {b : Block σ ε ρ α} {clauses : ε → Option (Block σ ε ρ α)}
    {Q : Exit ε ρ α → σ → Prop} :
    Ends (attempt b clauses) Q s ↔ Ends b (fun ended s' =>
      match ended with
      | .raised e => ((clauses e).getD (raising e)).Ends Q s'
      | ended => Q ended s') s := by
  simp only [Ends, attempt]
  split
  · next e s' heq =>
      simp only [heq]
      cases clauses e <;> rfl
  · next ended hne =>
      rcases hb : b s with ⟨ended | r | e, s'⟩
      · rfl
      · rfl
      · exact absurd hb (hne e s')

@[simp] theorem ends_within {b : Block σ ε ρ α} {exit : Block σ ε ρ Unit}
    {Q : Exit ε ρ α → σ → Prop} :
    Ends (within b exit) Q s ↔ Ends b (fun ended s' => Ends exit (fun left s'' =>
      match left with
      | .raised e => Q (.raised e) s''
      | _ => Q ended s'') s') s := by
  simp only [Ends, within]
  rcases exit (b s).2 with ⟨left | r | e, s''⟩ <;> rfl

end Block

end ObjectStorage.Library
