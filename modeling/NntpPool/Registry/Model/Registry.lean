import NntpPool.Common.Run
import NntpPool.Model.Errors
import Mathlib.Logic.Function.Basic
/-!
# Registry — `AddProvider` and `RemoveProvider`

The provider lists are two atomic pointers to slices that are copied on
write. A call is a sequence of atomic steps, each a Load or a Store of
one of the pointers, the drawing of an index, or the cancelling of a
group; between two steps of one call any step of another may come. What a
call holds between its steps is its `Pc`.

A group is identified by the call that made it: every call of
`AddProvider` makes one at most. The connections of a group, its ping and
its statistics are left out; no step here reads them.
-/

namespace NntpPool

namespace Registry

/-- The fields of `Provider` that the registry reads. -/
structure Provider where
  id : String := ""
  host : String := ""
  username : String := ""
  connections : ℤ := 1
  /-- `Factory` is not `nil`. -/
  hasFactory : Bool := false
  response451Policy : ℕ := 0
  backup : Bool := false
  deriving DecidableEq, Repr

/-- `resolveProviderName`. -/
def resolveProviderName (p : Provider) (index : ℕ) : String :=
  if p.host ≠ "" then
    if p.username ≠ "" then p.host ++ "+" ++ p.username else p.host
  else "provider-" ++ toString index

/-- `resolveProviderID`. -/
def resolveProviderID (p : Provider) (index : ℕ) : String :=
  if p.id ≠ "" then p.id else resolveProviderName p index

/-- An error of `fmt.Errorf` without a wrapped one. -/
def errorf (text : String) : GoError := .external ⟨text, [], [], none, false⟩

/-- The checks `AddProvider` makes before anything else. -/
def invalid (p : Provider) : Option GoError :=
  if 1 < p.response451Policy then
    some (.wrapped ("unknown 451 response policy " ++ toString p.response451Policy)
      (.sentinel .invalidProviderConfiguration))
  else if p.connections ≤ 0 then some (errorf "nntp: provider connections must be > 0")
  else if p.hasFactory = false ∧ p.host = "" then
    some (errorf "nntp: provider must have Host or Factory")
  else none

/-- What makes a group itself: it was there at the start, or a call made
it. -/
inductive Key
  | initial (n : ℕ)
  | made (call : ℕ)
  deriving DecidableEq, Repr

/-- `providerGroup`. -/
structure Group where
  key : Key
  id : String
  name : String
  deriving DecidableEq, Repr

/-- The two lists. -/
inductive Lane
  | main
  | backup
  deriving DecidableEq, Repr

/-- The list a provider is registered in. -/
def Provider.lane (p : Provider) : Lane := if p.backup then .backup else .main

/-- `mainGroups` and `backupGroups`. -/
structure Lists where
  main : List Group := []
  backup : List Group := []
  deriving DecidableEq, Repr

/-- Load. -/
def Lists.load (r : Lists) : Lane → List Group
  | .main => r.main
  | .backup => r.backup

/-- Store. -/
def Lists.store (r : Lists) (gs : List Group) : Lane → Lists
  | .main => { r with main := gs }
  | .backup => { r with backup := gs }

/-- A call. The removals behind a 502 are calls of `RemoveProvider`. -/
inductive Call
  | add (p : Provider)
  | remove (name : String)
  deriving DecidableEq, Repr

/-- **Where a call stands**, with what it holds. -/
inductive Pc
  /-- There is no such call. -/
  | idle
  | ready (c : Call)
  /-- The index is drawn; the lists are loaded for the duplicate check. -/
  | checkMain (p : Provider) (index : ℕ)
  | checkBackup (p : Provider) (index : ℕ) (mains : List Group)
  /-- The group is started; its list is loaded to be copied. -/
  | load (p : Provider) (g : Group)
  | store (p : Provider) (g : Group) (old : List Group)
  /-- The name is not in the main list; the backups are loaded. -/
  | findBackup (name : String)
  /-- The group is found, and is cancelled and then unlinked. -/
  | cancel (name : String) (lane : Lane) (g : Group) (old : List Group)
  | unlink (name : String) (lane : Lane) (g : Group) (old : List Group)
  | returned (c : Call) (err : Option GoError)
  deriving DecidableEq, Repr

/-- The state of the client's registry and of all calls. -/
structure State extends Lists where
  providerIdx : ℕ
  /-- The groups whose context is cancelled. -/
  cancelled : List Key
  pc : ℕ → Pc

/-- A group of the list has the name or the id. -/
def taken (gs : List Group) (name id : String) : Bool :=
  gs.any fun g => g.name == name || g.id == id

/-- The group a call registers. -/
def newGroup (i : ℕ) (p : Provider) (index : ℕ) : Group :=
  ⟨.made i, resolveProviderID p index, resolveProviderName p index⟩

/-- The list without the first group of the name. -/
def without (gs : List Group) (name : String) : List Group := gs.eraseP fun g => g.name == name

/-- The first group of the name. -/
def findNamed (gs : List Group) (name : String) : Option Group :=
  gs.find? fun g => g.name == name

/-- The call moves on. -/
def State.move (s : State) (i : ℕ) (pc : Pc) : State :=
  { s with pc := Function.update s.pc i pc }

/-- `fmt.Errorf("nntp: provider %q already exists", name)`. -/
def errExists (name : String) : GoError :=
  errorf ("nntp: provider " ++ name.quote ++ " already exists")

/-- `fmt.Errorf("nntp: provider %q not found", name)`. -/
def errNotFound (name : String) : GoError :=
  errorf ("nntp: provider " ++ name.quote ++ " not found")

/-- **One atomic step of a call.** -/
def step (s : State) (i : ℕ) : Option State :=
  match s.pc i with
  | .idle => none
  | .ready (.add p) =>
    match invalid p with
    | some e => some (s.move i (.returned (.add p) (some e)))
    | none =>
      some { s.move i (.checkMain p (s.providerIdx + 1)) with providerIdx := s.providerIdx + 1 }
  | .checkMain p index => some (s.move i (.checkBackup p index s.main))
  | .checkBackup p index mains =>
    let name := resolveProviderName p index
    if taken (mains ++ s.backup) name (resolveProviderID p index) then
      some (s.move i (.returned (.add p) (some (errExists name))))
    else some (s.move i (.load p (newGroup i p index)))
  | .load p g => some (s.move i (.store p g (s.load p.lane)))
  | .store p g old =>
    some { s.move i (.returned (.add p) none) with toLists := s.toLists.store (old ++ [g]) p.lane }
  | .ready (.remove name) =>
    match findNamed s.main name with
    | some g => some (s.move i (.cancel name .main g s.main))
    | none => some (s.move i (.findBackup name))
  | .findBackup name =>
    match findNamed s.backup name with
    | some g => some (s.move i (.cancel name .backup g s.backup))
    | none => some (s.move i (.returned (.remove name) (some (errNotFound name))))
  | .cancel name lane g old =>
    some { s.move i (.unlink name lane g old) with cancelled := g.key :: s.cancelled }
  | .unlink name lane _ old =>
    some { s.move i (.returned (.remove name) none) with
      toLists := s.toLists.store (without old name) lane }
  | .returned _ _ => none

/-- The state before the calls. -/
def start (r : Lists) (calls : List Call) : State where
  toLists := r
  providerIdx := 0
  cancelled := []
  pc := fun i => match calls[i]? with
    | some c => .ready c
    | none => .idle

/-- A call that has returned, or was never made. -/
def Pc.over : Pc → Bool
  | .idle => true
  | .returned _ _ => true
  | _ => false

/-- A call run alone to its end; no call takes more than five steps. -/
def alone (i : ℕ) (s : State) : State := go 5 s
where
  go : ℕ → State → State
    | 0, s => s
    | n + 1, s => match step s i with
      | none => s
      | some s' => go n s'

/-- The calls one after the other. -/
def sequentially (s : State) (order : List ℕ) : State := order.foldl (fun s i => alone i s) s

end Registry

end NntpPool
