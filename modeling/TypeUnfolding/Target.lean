import TypeUnfolding.Definitions
import TypeUnfolding.Layer

/-!
# Targets

A `Target` is a representation of types that is built layer by layer. It may keep a state between the calls, as for
the named definitions that it collects during a pass: a pass is started, every layer is built from parts that are
values of the target, and the finished root is handed over either with the definitions inside it or beside them.
-/

namespace TypeUnfolding

/-- A finished root beside the definitions of its pass. -/
structure Finished (α : Type) where
  root : α
  definitions : Definitions α

/-- A way to build values of type `α` with a state of type `σ`. -/
structure Target (σ α : Type) where
  /-- Before a pass. -/
  start : σ → σ
  /-- One layer over parts that are already built. -/
  build : Layer α → σ → α × σ
  /-- After a pass, with the definitions inside the root. -/
  finish : α → σ → α × σ
  /-- After a pass, with the definitions beside the root. -/
  finishApart : α → σ → Finished α × σ

end TypeUnfolding
