import Scriptlet.Builtin

/-!
# The state of a run

Everything that evaluation can change: scopes, lists, what was printed and the faults noted so far.
Each operation changes one of them.
-/

namespace Scriptlet

structure Machine where
  scopes : Scopes
  lists : Lists
  console : Console
  faults : Array Fault

namespace Machine

def empty : Machine :=
  ⟨Scopes.empty, Lists.empty, Console.empty, #[]⟩

def note (m : Machine) (fault : Fault) : Machine :=
  { m with faults := m.faults.push fault }

/-- The value of an operation. If it has none, that is nil, and its fault is noted. -/
def settle (m : Machine) : Except Fault Value → Value × Machine
  | .ok v => (v, m)
  | .error fault => (.nil, m.note fault)

def newList (m : Machine) (elements : List Value) : Value × Machine :=
  (.list m.lists.size, { m with lists := m.lists.alloc elements })

def bind (m : Machine) (s : ScopeId) (name : String) (v : Value) : Machine :=
  { m with scopes := m.scopes.set s name v }

def enclose (m : Machine) (outer : ScopeId) (bindings : Bindings) : ScopeId × Machine :=
  (m.scopes.size, { m with scopes := m.scopes.add ⟨some outer, bindings⟩ })

def newRoot (m : Machine) : ScopeId × Machine :=
  (m.scopes.size, { m with scopes := m.scopes.add ⟨none, []⟩ })

def store (m : Machine) : Store :=
  ⟨m.scopes, m.lists, m.console⟩

def withStore (m : Machine) (store : Store) : Machine :=
  ⟨store.scopes, store.lists, store.console, m.faults⟩

def callBuiltin (m : Machine) (sink : Sink) (b : Builtin) (args : List Value) :
    Option (Value × Machine) :=
  (b.action sink args m.store).map fun (result, store) => (m.withStore store).settle result

theorem callBuiltin_eq_some_iff {m : Machine} {sink : Sink} {b : Builtin} {args : List Value}
    {r : Value × Machine} : m.callBuiltin sink b args = some r ↔
      ∃ result store, b.action sink args m.store = some (result, store) ∧
        (m.withStore store).settle result = r := by
  simp only [callBuiltin, Option.map_eq_some_iff, Prod.exists]

/-- What a built-in function does that cannot tell scopes apart it does in both of two states. -/
theorem callBuiltin_of_blindTo {rel : Scopes → Scopes → Prop} {b : Builtin} (hb : b.BlindTo rel)
    {m m' : Machine} (hscopes : rel m.scopes m'.scopes) (hlists : m.lists = m'.lists)
    (hconsole : m.console = m'.console) (sink : Sink) (args : List Value) :
    Option.Rel (fun r r' => ∃ result store store',
        r = (m.withStore store).settle result ∧ r' = (m'.withStore store').settle result ∧
        rel store.scopes store'.scopes ∧ store.lists = store'.lists ∧
        store.console = store'.console)
      (m.callBuiltin sink b args) (m'.callBuiltin sink b args) := by
  have haction := hb sink args m.store m'.scopes hscopes
  have hstore : m'.store = ⟨m'.scopes, m.store.lists, m.store.console⟩ := by
    simp only [store, hlists, hconsole]
  rw [← hstore] at haction
  simp only [callBuiltin]
  generalize b.action sink args m.store = o, b.action sink args m'.store = o' at haction ⊢
  cases haction with
  | none => exact .none
  | @some r r' h =>
    obtain ⟨result, store⟩ := r
    obtain ⟨result', store'⟩ := r'
    obtain ⟨rfl, h⟩ := h
    exact .some ⟨result, store, store', rfl, rfl, h⟩

end Machine

end Scriptlet
