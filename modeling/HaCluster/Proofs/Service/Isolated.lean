import HaCluster.Proofs.Cluster.Isolated
import HaCluster.Proofs.Service.Asked
import HaCluster.Proofs.Service.Election

/-!
# Services are isolated

A decision about one service does not look at another one that is neither its
parent nor its child. So the records of the other service make no difference to
it, on whatever nodes they lie, and be they malformed (`services_isolated`): a
service that cannot be read is out of orchestration, and no other one is.
-/

namespace HaCluster.Service.Situation

open View

variable {s : Situation} {v : View} {x : String}

/-- Who is eligible for a service is read off its own records. -/
theorem isEligible_without (other : s.path ≠ x) (retrying : Bool) :
    (s.on (v.without x)).isEligible retrying = (s.on v).isEligible retrying := by
  funext n
  rw [isEligible_eq, isEligible_eq]
  show ((v.without x).trusted? n).any _ = (v.trusted? n).any _
  rw [trusted?_without, Option.any_map]
  refine congrArg (fun p => Option.any p (v.trusted? n)) (funext fun d => ?_)
  show (_ && _ && Option.any _ (Entries.get? (Entries.erase d.instances x) s.path)) = _
  rw [Entries.get?_erase_of_ne d.instances other]
  rfl

/-- Without another service a view gives the same answers about a service that
it is not related to. -/
theorem askedAlike_without (other : s.path ≠ x) (parents : ¬ s.config.Names x)
    (spares : v.Spares x s.path) : AskedAlike s (v.without x) v where
  localNode := rfl
  «instance» := instance?_without other v.localNode
  runningOn := runningOn_without other
  upCount := upCount_without other
  scopeInstances := scopeInstances_without other
  children := children_without spares
  childHere _ hc :=
    avail_without (ne_of_mem_children_without (children_without spares ▸ hc)) v.localNode
  childAnywhere _ hc :=
    runningOn_without (ne_of_mem_children_without (children_without spares ▸ hc))
  parents := parentsState_without parents
  eligible := isEligible_without other

/-- **Services are isolated.** Two snapshots differ in the records of one service
alone, its instances and configurations on any nodes, which may be malformed.
Then the decision about every other service is the same on both, its reason
included, as long as the other service does not name this one as a parent, and
no configuration of this one names the other service. -/
theorem services_isolated {b : Basis} {snapshot : Value} {viewer : String}
    {desynced : List String} (sorted : Value.Sorted b.snapshot)
    (sorted' : Value.Sorted snapshot) (same : SameButFor x b.snapshot snapshot)
    (s : Situation) (other : s.path ≠ x) (parents : ¬ s.config.Names x)
    (spares : (b.view viewer desynced).Spares x s.path)
    (spares' : ((b.reading snapshot).view viewer desynced).Spares x s.path) :
    (s.on (b.view viewer desynced)).decide
      = (s.on ((b.reading snapshot).view viewer desynced)).decide := by
  calc (s.on (b.view viewer desynced)).decide
      = (s.on ((b.view viewer desynced).without x)).decide :=
        (askedAlike_without other parents spares).decide_congr.symm
    _ = (s.on (((b.reading snapshot).view viewer desynced).without x)).decide := by
        rw [Basis.view_without viewer desynced sorted sorted' same]
    _ = (s.on ((b.reading snapshot).view viewer desynced)).decide :=
        (askedAlike_without other parents spares').decide_congr

/-- What a node publishes of a service `db`, and of a service `svc` that it is
ready to start. -/
def blobBeside (status config : Value) : Value :=
  let svc := .map [("avail", .str "down"), ("monitor", .map [("status", .str "ready")])]
  .map
    [("monitor", .map [("status", .str "idle")]),
     ("services", .map
      [("config", .map [("db", config), ("svc", .map [("scope", .ofStrings ["n1"])])]),
       ("status", .map [("db", status), ("svc", svc)])]),
     ("updated", .float 10)]

/-- A node on its own that publishes what is given of `db`. -/
def besides (status config : Value) : View.Basis where
  snapshot := .map [("cluster", .map [("nodes", .map [("n1", blobBeside status config)])])]
  now := 10
  live := ["n1"]
  declared := ["n1"]
  staleAfter := .seconds 30

theorem sameButFor_besides (status config status' config' : Value) :
    SameButFor "db" (besides status config).snapshot (besides status' config').snapshot := by
  have first : (besides status config).snapshot.enact?
      ⟨Layout.serviceStatus "n1" "db", some status'⟩
        = some (besides status' config).snapshot := rfl
  have second : (besides status' config).snapshot.enact?
      ⟨Layout.serviceConfig "n1" "db", some config'⟩
        = some (besides status' config').snapshot := rfl
  exact (sameButFor_of_enact? (.inl rfl) first).trans (sameButFor_of_enact? (.inr rfl) second)

/-- Of `db` one snapshot has an instance that runs and a configuration, the other
one has a text and a number in their places. -/
theorem services_isolated_malformed :
    let config : Value := .map [("parents", .ofStrings ["cache"]), ("scope", .ofStrings ["n1"])]
    let sound := besides (.map [("avail", .str "up")]) config
    let broken := besides (.str "?") (.int 7)
    let s := { ofPair .ready "n1" with
      config := ⟨["n1"], .failover, 1, none, [], .ha, .nodesOrder, false⟩ }
    (sound.view "n1" []).avail "n1" "db" ≠ (broken.view "n1" []).avail "n1" "db"
      ∧ (s.on (sound.view "n1" [])).decide.starts
      ∧ (s.on (sound.view "n1" [])).decide = (s.on (broken.view "n1" [])).decide := by
  intro config sound broken s
  have sorted : Value.Sorted sound.snapshot ∧ Value.Sorted broken.snapshot := by
    simp only [sound, broken, besides, blobBeside, config, Value.Everywhere,
      Value.EverywhereEntries, Value.EverywhereItems, Value.isSorted, Value.ofStrings, List.map,
      Entries.Sorted, Entries.keys, List.pairwise_singleton, and_true, true_and]
    decide
  have spares (b : View.Basis) (named : ∀ e ∈ (b.view "n1" []).nodes, ∀ f ∈ e.2.configs,
      f.1 = "db" → "svc" ∉ f.2.parents.map (fun p => (ParentRef.ofText p).path)) :
      (b.view "n1" []).Spares "db" "svc" := by
    rintro n d node c published ⟨p, hp, names⟩
    exact named _ (Entries.mem_of_get? node) _ published rfl (List.mem_map.2 ⟨p, hp, names⟩)
  have parents : ¬ s.config.Names "db" := by
    rintro ⟨p, named, -⟩
    exact List.not_mem_nil named
  refine ⟨by decide +kernel, by decide +kernel, ?_⟩
  exact services_isolated sorted.1 sorted.2 (sameButFor_besides _ _ _ _) s (by decide) parents
    (spares sound (by decide +kernel)) (spares broken (by decide +kernel))

end HaCluster.Service.Situation
