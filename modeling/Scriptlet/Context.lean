import Scriptlet.Machine

/-!
# What a run takes as given

The options that an embedder chooses, the built-in functions, the sink that takes what is printed,
and the rule by which branches get a scope of their own.
-/

namespace Scriptlet

inductive Arity where
  /-- Missing arguments are nil and extra ones are dropped. -/
  | lenient
  /-- The call does nothing and is nil. -/
  | strict
  deriving DecidableEq, Repr

/-- What reading a name does that is bound nowhere. The name is nil in either case. -/
inductive UnsetNames where
  /-- The name gets bound to nil in the outermost scope. -/
  | vivify
  /-- Nothing gets bound. -/
  | nil
  deriving DecidableEq, Repr

structure Options where
  arity : Arity := .lenient
  unsetNames : UnsetNames := .vivify
  deriving DecidableEq, Repr

structure Context where
  options : Options
  builtins : Builtins
  sink : Sink
  /-- Whether a branch of a conditional gets a scope of its own. One that binds nothing has no use
  for it. -/
  ownScope : Code → Bool := Block.binds

namespace Context

/-- What a name means: first a built-in function, then what the scopes say. A name that neither
knows is nil; that is noted, and as the options say the name is bound to nil from then on. -/
def resolve (ctx : Context) (name : String) (s : ScopeId) (m : Machine) : Value × Machine :=
  if ctx.builtins.has name then (.builtin name, m)
  else
    match m.scopes.get? s name with
    | some v => (v, m)
    | none =>
      let m := m.note (.unbound name)
      match ctx.options.unsetNames with
      | .vivify => (.nil, { m with scopes := m.scopes.setGlobal s name .nil })
      | .nil => (.nil, m)

def enterBranch (ctx : Context) (branch : Code) (s : ScopeId) (m : Machine) :
    ScopeId × Machine :=
  if ctx.ownScope branch then m.enclose s [] else (s, m)

end Context

end Scriptlet
