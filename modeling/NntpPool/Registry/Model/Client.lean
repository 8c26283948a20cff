import NntpPool.Registry.Model.Registry
/-!
# Registry — a client and its calls

`NewClient`, what a call of `AddProvider` or `RemoveProvider` comes to
when no other is under way, and the lookup of a group by its name or its
id.
-/

namespace NntpPool

namespace Registry

/-- What the calls read and write: the lists, and the last index that was
drawn. -/
structure Client extends Lists where
  providerIdx : ℕ := 0
  deriving DecidableEq, Repr

/-- All groups, in the order they are searched. -/
def Lists.groups (r : Lists) : List Group := r.main ++ r.backup

/-! ## `NewClient` -/

/-- `fmt.Errorf("nntp: provider ID %q already exists", id)`. -/
def errIDExists (id : String) : GoError :=
  errorf ("nntp: provider ID " ++ id.quote ++ " already exists")

/-- The validation loop, from index `i` on, with the names and the ids
seen. -/
def validateProviders (i : ℕ) (seen seenIDs : List String) : List Provider → Option GoError
  | [] => none
  | p :: ps =>
    match invalid p with
    | some e => some e
    | none =>
      let name := resolveProviderName p i
      let id := resolveProviderID p i
      if seen.contains name then some (errExists name)
      else if seenIDs.contains id then some (errIDExists id)
      else validateProviders (i + 1) (name :: seen) (id :: seenIDs) ps

/-- The group of the provider with index `i`. -/
def initialGroup (p : Provider) (i : ℕ) : Group :=
  ⟨.initial i, resolveProviderID p i, resolveProviderName p i⟩

/-- The groups of one list, from index `i` on. -/
def startGroups (lane : Lane) (i : ℕ) : List Provider → List Group
  | [] => []
  | p :: ps =>
    if p.lane = lane then initialGroup p i :: startGroups lane (i + 1) ps
    else startGroups lane (i + 1) ps

/-- **`NewClient`.** -/
def newClient (providers : List Provider) : Except GoError Client :=
  if providers = [] then .error (errorf "nntp: at least one provider is required")
  else if providers.all (·.backup) then
    .error (errorf "nntp: at least one non-backup provider is required")
  else
    match validateProviders 0 [] [] providers with
    | some e => .error e
    | none =>
      .ok { main := startGroups .main 0 providers, backup := startGroups .backup 0 providers }

/-! ## Calls -/

/-- **`AddProvider`**, as call `i`. -/
def Client.addProvider (c : Client) (i : ℕ) (p : Provider) : Client × Option GoError :=
  match invalid p with
  | some e => (c, some e)
  | none =>
    let idx := c.providerIdx + 1
    let c := { c with providerIdx := idx }
    let name := resolveProviderName p idx
    if taken c.groups name (resolveProviderID p idx) then (c, some (errExists name))
    else ({ c with toLists := c.store (c.load p.lane ++ [newGroup i p idx]) p.lane }, none)

/-- **`RemoveProvider`.** -/
def Client.removeProvider (c : Client) (name : String) : Client × Option GoError :=
  if (findNamed c.main name).isSome then
    ({ c with toLists := c.store (without c.main name) .main }, none)
  else if (findNamed c.backup name).isSome then
    ({ c with toLists := c.store (without c.backup name) .backup }, none)
  else (c, some (errNotFound name))

/-- A call, and what it answers. -/
def Client.call (c : Client) (i : ℕ) : Call → Client × Option GoError
  | .add p => c.addProvider i p
  | .remove name => c.removeProvider name

/-- **The calls one after the other**, numbered from `i` on. -/
def Client.history (c : Client) (i : ℕ) : List Call → Client
  | [] => c
  | call :: calls => (c.call i call).1.history (i + 1) calls

/-! ## Lookup -/

/-- **`findGroup`**: the first group with the name, or the id. -/
def Lists.findGroup (r : Lists) (name : String) : Option Group :=
  r.groups.find? fun g => g.name == name || g.id == name

end Registry

end NntpPool
