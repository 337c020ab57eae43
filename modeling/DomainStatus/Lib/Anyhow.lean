import Mathlib.Tactic.Common

/-!
# Layered errors

The error type of the crate `anyhow` over an arbitrary type of standard error values. An error is a
stack of layers: a standard error value or a message at the bottom, and context values above it.
`chain` lists the standard error values that a walk from the top reaches. A context that is itself
an error shows its text only: the values inside it are out of reach.
-/

namespace Anyhow

/-- An error over the standard error values `σ`. -/
inductive Error (σ : Type) where
  /-- `Error::from` a standard error value, with the chain of its sources. -/
  | ofStd (value : σ) (sources : List σ)
  /-- `anyhow!("...")`. -/
  | message (text : String)
  /-- `error.context("...")`. -/
  | context (error : Error σ) (text : String)
  /-- `error.context(value)` for a value that is an error itself. -/
  | contextError (error value : Error σ)
  deriving DecidableEq

variable {σ : Type}

namespace Error

/-- The standard error values that `Error::chain` reaches, from the top. -/
def chain : Error σ → List σ
  | ofStd value sources => value :: sources
  | message _ => []
  | context error _ => error.chain
  | contextError error _ => error.chain

/-- `Error::downcast_ref` to a type of standard error values. The context values are texts and
errors, so only the value at the bottom can be of such a type. -/
def bottom : Error σ → Option σ
  | ofStd value _ => some value
  | message _ => none
  | context error _ => error.bottom
  | contextError error _ => error.bottom

/-- The standard error values that a walk from `Error::source` reaches. -/
def sources : Error σ → List σ
  | ofStd _ sources => sources
  | message _ => []
  | context error _ => error.chain
  | contextError error _ => error.chain

/-- `Error::to_string`: the text of the top layer, given the texts of the standard values. -/
def toText (stdText : σ → String) : Error σ → String
  | ofStd value _ => stdText value
  | message text => text
  | context _ above => above
  | contextError _ value => value.toText stdText

/-- A context value: a text or an error. -/
inductive ContextValue (σ : Type) where
  | text (text : String)
  | error (value : Error σ)

/-- Context values put on an error, one on top of the other. -/
def withContexts (error : Error σ) (values : List (ContextValue σ)) : Error σ :=
  values.foldl (fun error value =>
    match value with
    | .text text => error.context text
    | .error value => error.contextError value) error

/-- The value at the bottom is in the chain. -/
theorem mem_chain_of_bottom {error : Error σ} {value : σ} (h : error.bottom = some value) :
    value ∈ error.chain := by
  induction error with
  | ofStd top sources => exact Option.some.inj h ▸ List.mem_cons_self
  | message text => cases h
  | context error text ih => exact ih h
  | contextError error value ih => exact ih h

/-- The sources are in the chain. -/
theorem sources_subset_chain (error : Error σ) : error.sources ⊆ error.chain := by
  cases error with
  | ofStd value sources => exact List.subset_cons_self value sources
  | message text => exact List.Subset.refl _
  | context error text => exact List.Subset.refl _
  | contextError error value => exact List.Subset.refl _

/-- Context values do not hide the value at the bottom. -/
theorem bottom_withContexts (error : Error σ) (values : List (ContextValue σ)) :
    (error.withContexts values).bottom = error.bottom := by
  induction values generalizing error with
  | nil => rfl
  | cons value values ih =>
      cases value with
      | text text => exact ih (error.context text)
      | error value => exact ih (error.contextError value)

end Error

end Anyhow
