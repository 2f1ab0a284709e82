/-
This file reads a list of tokens from left to right.
-/

import RegisterMachine.Source.Token.Basic

namespace RegisterMachine.Source

/-- The tokens that are left and the number of those that were consumed. -/
structure TokenStream where
  pending : List Token
  position : Nat
  deriving DecidableEq, Repr

namespace TokenStream

def ofList (tokens : List Token) : TokenStream :=
  ⟨tokens, 0⟩

def peek (stream : TokenStream) : Option Token :=
  stream.pending.head?

/-- Nothing is consumed past the last token. -/
def advance (stream : TokenStream) : TokenStream :=
  match stream.pending with
  | [] => stream
  | _ :: rest => ⟨rest, stream.position + 1⟩

/-- A comma is consumed if it is next. -/
def eatComma (stream : TokenStream) : Bool × TokenStream :=
  if stream.peek = some .comma then (true, stream.advance) else (false, stream)

def isExhausted (stream : TokenStream) : Bool :=
  stream.pending.isEmpty

theorem advanceLength (stream : TokenStream) :
    stream.advance.pending.length = stream.pending.length - 1 := by
  unfold advance
  split <;> simp_all

theorem eatCommaLength (stream : TokenStream) :
    stream.eatComma.2.pending.length ≤ stream.pending.length := by
  unfold eatComma
  split
  · rw [advanceLength]
    exact Nat.sub_le _ _
  · exact Nat.le_refl _

theorem advanceShorter {stream : TokenStream} {token : Token} (next : stream.peek = some token) :
    stream.advance.pending.length < stream.pending.length := by
  rw [advanceLength]
  cases pending : stream.pending with
  | nil => simp [peek, pending] at next
  | cons first rest => simp

end TokenStream

end RegisterMachine.Source
