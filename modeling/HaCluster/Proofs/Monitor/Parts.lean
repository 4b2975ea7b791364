import HaCluster.Proofs.Daemon.View
import HaCluster.Proofs.Monitor.Actions

/-!
# The parts of a round

A round falls into three parts: everything up to the picture of the cluster on
which the services are decided about (`prepare`), the services (`attend`), and
what is left (`conclude`). On a sound monitor each of them succeeds, and so does
the round (`round_ok`).
-/

namespace HaCluster.Monitor

open Value Mutation

variable {W : Type} {R : String → Entries Value → Prop} {node : String} {s s' t : Monitor W}

/-! ## The parts of a round -/

/-- What a round has found out when the services come. -/
structure Outlook where
  /-- The actions that ended, with their exit codes. -/
  completed : List (Action × Int)
  node : NodeOutcome
  live : List String
  declared : List String

namespace Outlook

/-- The picture on which the services are decided about. -/
def view (o : Outlook) (at_ : Float) (s : Monitor W) : View :=
  s.daemon.viewOf at_ o.live o.declared

/-- The services that are decided about. -/
def services (o : Outlook) (at_ : Float) (s : Monitor W) : List String :=
  if o.node.hold then [] else (o.view at_ s).localServices

end Outlook

section

variable [World W]

/-- The settings are read again, and actions that ended are reaped. -/
def settle (host : Daemon.Host) (now : Moment) (at_ : Float) : Step W (List (Action × Int)) := do
  reload host
  reap at_ now.wall

/-- What a round does between the actions that ended and the services: statuses
are taken in, and the node is decided about. -/
def survey (now : Moment) (at_ : Float) (completed : List (Action × Int)) : Step W Outlook := do
  ingest now.wall
  let live := (← get).daemon.heartbeats.beating now.steady
  let (declared, d) := (← get).daemon.declaredNodes
  modify fun s => { s with daemon := d }
  let node ← evaluateNode at_ ((← get).daemon.viewOf at_ live declared)
  pure ⟨completed, node, live, declared⟩

/-- The statuses are taken in, and the live and the declared nodes are found out. -/
def look (now : Moment) : Step W (List String × List String) := do
  ingest now.wall
  let live := (← get).daemon.heartbeats.beating now.steady
  let (declared, d) := (← get).daemon.declaredNodes
  modify fun s => { s with daemon := d }
  pure (live, declared)

/-- The node is decided about on what was found out. -/
theorem survey_eq (now : Moment) (at_ : Float) (completed : List (Action × Int)) :
    (survey now at_ completed : Step W Outlook) = (do
      let seen ← look now
      let node ← evaluateNode at_ ((← get).daemon.viewOf at_ seen.1 seen.2)
      pure ⟨completed, node, seen.1, seen.2⟩) := by
  unfold survey look
  simp only [bind_assoc, pure_bind]

/-- A round up to the services. -/
def prepare (host : Daemon.Host) (now : Moment) (at_ : Float) : Step W Outlook := do
  let completed ← settle host now at_
  ingest now.wall
  let live := (← get).daemon.heartbeats.beating now.steady
  let (declared, d) := (← get).daemon.declaredNodes
  modify fun s => { s with daemon := d }
  let node ← evaluateNode at_ ((← get).daemon.viewOf at_ live declared)
  pure ⟨completed, node, live, declared⟩

theorem prepare_eq (host : Daemon.Host) (now : Moment) (at_ : Float) :
    (prepare host now at_ : Step W Outlook) = settle host now at_ >>= survey now at_ := rfl

/-- The services of a round. -/
def attend (at_ now : Float) (o : Outlook) :
    Step W (List Action × List (String × DataError)) := do
  if o.node.hold then pure ([], [])
  else do
    let v := o.view at_ (← get)
    let r ← orchestrateAll at_ now v o.node v.localServices
    dropOrphans v
    pure r

/-- The rest of a round. -/
def conclude (at_ : Float) (o : Outlook) (done : List Action × List (String × DataError)) :
    Step W Report := do
  let purged ← purgeDownPeers o.live at_
  mutate (Node.Blob.stamp (← get).daemon.nodeName (← get).running.length at_)
  let exit := shutdownComplete (← get) (o.view at_ (← get)) o.node.state
  let (outgoing, d) := (← get).daemon.nextPatches at_
  modify fun s => { s with daemon := d }
  pure ⟨o.node.state, done.1, o.completed, done.2, purged, outgoing, exit⟩

/-- What is left of a round before its patches are cut: the copies of the peers that
are down are dropped, the blob is stamped, and it is found out whether the node may
exit. -/
def tidy (at_ : Float) (o : Outlook) : Step W (List String × Bool) := do
  let purged ← purgeDownPeers o.live at_
  mutate (Node.Blob.stamp (← get).daemon.nodeName (← get).running.length at_)
  let exit := shutdownComplete (← get) (o.view at_ (← get)) o.node.state
  pure (purged, exit)

/-- The patches of a round are cut, and the round reports. -/
def publish (at_ : Float) (o : Outlook) (done : List Action × List (String × DataError))
    (tidied : List String × Bool) : Step W Report := do
  let (outgoing, d) := (← get).daemon.nextPatches at_
  modify fun s => { s with daemon := d }
  pure ⟨o.node.state, done.1, o.completed, done.2, tidied.1, outgoing, tidied.2⟩

omit [World W] in
theorem conclude_eq (at_ : Float) (o : Outlook)
    (done : List Action × List (String × DataError)) :
    (conclude at_ o done : Step W Report) = tidy at_ o >>= publish at_ o done := by
  unfold conclude tidy publish
  simp only [bind_assoc, pure_bind]

omit [World W] in
/-- What is left of a round tidies up, decides on what it finds then whether the node
exits, and cuts the patches. -/
theorem conclude_eq_ok {at_ : Float} {o : Outlook} {done : List Action × List (String × DataError)}
    {r : Report} (run : conclude at_ o done s = .ok r s') :
    ∃ (t : Monitor W) (purged : List String),
      tidy at_ o s = .ok (purged, shutdownComplete t (o.view at_ t) o.node.state) t
        ∧ s' = { t with daemon := (t.daemon.nextPatches at_).2 }
        ∧ r = ⟨o.node.state, done.1, o.completed, done.2, purged, (t.daemon.nextPatches at_).1,
          shutdownComplete t (o.view at_ t) o.node.state⟩ := by
  rw [conclude_eq] at run
  obtain ⟨⟨purged, exit⟩, t, tidied, published⟩ := bind_eq_ok run
  obtain rfl : exit = shutdownComplete t (o.view at_ t) o.node.state := by
    unfold tidy at tidied
    obtain ⟨_, u, -, rest⟩ := bind_eq_ok tidied
    rw [get_bind, get_bind] at rest
    obtain ⟨-, w, -, ended⟩ := bind_eq_ok rest
    cases ended
    rfl
  cases published
  exact ⟨t, purged, tidied, rfl, rfl⟩

/-- **A round is its parts** one after the other. -/
theorem round_eq (host : Daemon.Host) (now : Moment) (at_ : Float) :
    (round host now at_ : Step W Report)
      = prepare host now at_ >>= fun o => attend at_ now.wall o >>= conclude at_ o := by
  -- the round goes on in both branches of the test for a hold
  have rest (o : Outlook) : attend at_ now.wall o >>= conclude at_ o
      = (if o.node.hold then conclude at_ o ([], [])
        else do
          let v := o.view at_ (← get)
          let r ← orchestrateAll at_ now.wall v o.node v.localServices
          dropOrphans v
          conclude at_ o r : Step W Report) := by
    unfold attend
    split
    · exact pure_bind _ _
    · simp only [bind_assoc, pure_bind]
  unfold round prepare settle
  simp only [bind_assoc, pure_bind, rest]
  rfl

/-- If its parts succeed, so does a round. -/
theorem round_of_parts {host : Daemon.Host} {now : Moment} {at_ : Float} {s t u s' : Monitor W}
    {o : Outlook} {done : List Action × List (String × DataError)} {r : Report}
    (prepared : prepare host now at_ s = .ok o t)
    (attended : attend at_ now.wall o t = .ok done u)
    (concluded : conclude at_ o done u = .ok r s') : round host now at_ s = .ok r s' := by
  rw [round_eq]
  exact (bind_ok prepared).trans ((bind_ok attended).trans concluded)

end

/-! ## What the parts come to -/

/-- **The round is concluded**, and reports what was launched and completed. -/
theorem conclude_ok (h : Sound R node s) (at_ : Float) (o : Outlook) (launched : List Action) :
    ∃ r s', conclude at_ o (launched, []) s = .ok r s' ∧ Sound R node s' ∧ Calm s s'
      ∧ r.launched = launched ∧ r.completed = o.completed := by
  obtain ⟨purged, t, dropped, soundT, calmT⟩ := quiet_purgeDownPeers o.live at_ s h
  obtain ⟨x, u, stamped, soundU, calmU⟩ :=
    quiet_mutate (Node.Blob.keeps_stamp t.running.length at_) t soundT
  rw [← soundT.daemon.name] at stamped
  let d := u.daemon.nextPatches at_
  have soundD : Daemon.Sound R node d.2 :=
    ⟨soundU.daemon.name, soundU.daemon.shaped.congr rfl⟩
  refine ⟨_, { u with daemon := d.2 }, (bind_ok dropped).trans (bind_ok stamped),
    soundU.congr soundD rfl, ?_, rfl, rfl⟩
  exact (calmT.trans calmU).trans ⟨rfl, rfl, refused_refl u⟩

variable [World W]

/-- The settings are read again, whether they can be used or not. -/
theorem reload_ok (h : Sound R node s) (host : Daemon.Host) :
    ∃ s', reload host s = .ok ⟨⟩ s' ∧ Sound R node s' ∧ s'.running = s.running
      ∧ Refused [] s s' := by
  have sound := Daemon.preserves_reloadSettings (loadSettings host s.world) s.daemon h.daemon
  refine ⟨{ s with daemon :=
    Daemon.Step.after (Daemon.reloadSettings (loadSettings host s.world)) s.daemon }, ?_,
    h.congr sound rfl, rfl, refused_refl s⟩
  change EStateM.Result.ok _ _ = _
  dsimp only
  unfold Daemon.Step.after
  cases Daemon.reloadSettings (loadSettings host s.world) s.daemon <;> rfl

/-- Of each service, what was in flight has been completed or is in flight. -/
theorem settle_ok (rule : Node.Blob.Rule R) (h : Sound R node s) (host : Daemon.Host)
    (now : Moment) (at_ : Float) :
    ∃ done s', settle host now at_ s = .ok done s' ∧ Sound R node s' ∧ Refused [] s s'
      ∧ ∀ p, on p s.inFlight = on p (done.map Prod.fst) ++ on p s'.inFlight := by
  obtain ⟨t, loaded, soundT, running, events⟩ := reload_ok h host
  obtain ⟨done, s', reaped, sound, events', accounts⟩ := reap_ok rule soundT at_ now.wall
  refine ⟨done, s', (bind_ok loaded).trans reaped, sound, events.append events', fun p => ?_⟩
  rw [← accounts, inFlight, inFlight, running]

/-- It is found out who is there, if the statuses that were read may be taken in. -/
theorem look_ok (rule : Node.Blob.Rule R) (h : Sound R node s) (now : Moment)
    (accepts : ∀ r ∈ readings now.wall s, (∃ doc, r.reading = .ok (some (.map doc))) →
      ∀ new, Node.Blob.Accepts R r.service new) :
    ∃ seen s', look now s = .ok seen s' ∧ Sound R node s' ∧ Calm s s' := by
  obtain ⟨t, ingested, soundT, calmT⟩ := ingest_ok rule now.wall h accepts
  let u : Monitor W := { t with daemon := t.daemon.declaredNodes.2 }
  have soundU : Sound R node u := soundT.congr ⟨soundT.daemon.name, soundT.daemon.shaped⟩ rfl
  exact ⟨(t.daemon.heartbeats.beating now.steady, t.daemon.declaredNodes.1), u, bind_ok ingested,
    soundU, calmT.trans ⟨rfl, rfl, refused_refl t⟩⟩

/-- The node is looked over, if the statuses that were read may be taken in. -/
theorem survey_ok (rule : Node.Blob.Rule R) (h : Sound R node s) (now : Moment) (at_ : Float)
    (completed : List (Action × Int))
    (accepts : ∀ r ∈ readings now.wall s, (∃ doc, r.reading = .ok (some (.map doc))) →
      ∀ new, Node.Blob.Accepts R r.service new) :
    ∃ o s', survey now at_ completed s = .ok o s' ∧ Sound R node s' ∧ Calm s s'
      ∧ o.completed = completed := by
  obtain ⟨seen, u, looked, soundU, calmU⟩ := look_ok rule h now accepts
  obtain ⟨n, s', decided, sound, calm⟩ :=
    quiet_evaluateNode at_ (u.daemon.viewOf at_ seen.1 seen.2) u soundU
  rw [survey_eq]
  exact ⟨⟨completed, n, seen.1, seen.2⟩, s', (bind_ok looked).trans (bind_ok decided), sound,
    calmU.trans calm, rfl⟩

/-- **A round reaches the services**, if the statuses that were read may be
taken in. -/
theorem prepare_ok (rule : Node.Blob.Rule R) (h : Sound R node s) {host : Daemon.Host}
    {now : Moment} (at_ : Float)
    (accepts : ∀ done t, settle host now at_ s = .ok done t → ∀ r ∈ readings now.wall t,
      (∃ doc, r.reading = .ok (some (.map doc))) → ∀ new, Node.Blob.Accepts R r.service new) :
    ∃ o s', prepare host now at_ s = .ok o s' ∧ Sound R node s' ∧ Refused [] s s'
      ∧ ∀ p, on p s.inFlight = on p (o.completed.map Prod.fst) ++ on p s'.inFlight := by
  obtain ⟨done, t, settled, soundT, events, accounts⟩ := settle_ok rule h host now at_
  obtain ⟨o, s', surveyed, sound, calm, completed⟩ :=
    survey_ok rule soundT now at_ done (accepts done t settled)
  refine ⟨o, s', (bind_ok settled).trans surveyed, sound, events.append calm.events, fun p => ?_⟩
  rw [accounts, completed, inFlight, inFlight, calm.running]

/-- **The services are decided about**, unless the node holds them. -/
theorem attend_ok (rule : Node.Blob.Rule R) (h : Sound R node s) (at_ now : Float)
    (o : Outlook) :
    ∃ launched s', attend at_ now o s = .ok (launched, []) s' ∧ Sound R node s'
      ∧ Orchestrated at_ (o.view at_ s) o.node (o.services at_ s) s launched s' := by
  unfold attend Outlook.services
  cases o.node.hold with
  | true =>
    exact ⟨[], s, rfl, h, rfl, fun p => List.append_nil _,
      fun _ => ⟨[], refused_refl s, by simp, by simp⟩⟩
  | false =>
    have hv : (o.view at_ s).localNode = node := h.daemon.name
    obtain ⟨launched, t, done, soundT, spec⟩ :=
      orchestrateAll_ok rule hv h at_ now o.node (o.view at_ s).localServices
    obtain ⟨u, s', dropped, sound, calm⟩ := quiet_dropOrphans hv t soundT
    exact ⟨launched, s', (bind_ok done).trans (bind_ok dropped), sound, spec.calm calm⟩

/-- What a round comes to, seen from where the services come. -/
structure Passed (at_ : Float) (s : Monitor W) (o : Outlook) (t : Monitor W) (r : Report)
    (s' : Monitor W) : Prop where
  /-- Of each service, what was in flight has been completed or is in flight. -/
  completed (p : String) : on p s.inFlight = on p (r.completed.map Prod.fst) ++ on p t.inFlight
  unrefused : Refused [] s t
  services : Orchestrated at_ (o.view at_ t) o.node (o.services at_ t) t r.launched s'

/-- **No round fails.** -/
theorem round_ok (rule : Node.Blob.Rule R) (h : Sound R node s) {host : Daemon.Host}
    {now : Moment} (at_ : Float)
    (accepts : ∀ done t, settle host now at_ s = .ok done t → ∀ r ∈ readings now.wall t,
      (∃ doc, r.reading = .ok (some (.map doc))) → ∀ new, Node.Blob.Accepts R r.service new) :
    ∃ o t r s', prepare host now at_ s = .ok o t ∧ Sound R node t
      ∧ round host now at_ s = .ok r s' ∧ Sound R node s' ∧ Passed at_ s o t r s' := by
  obtain ⟨o, t, prepared, soundT, events, accounts⟩ := prepare_ok rule h at_ accepts
  obtain ⟨launched, u, attended, soundU, services⟩ := attend_ok rule soundT at_ now.wall o
  obtain ⟨r, s', concluded, sound, calm, rfl, completed⟩ := conclude_ok soundU at_ o launched
  refine ⟨o, t, r, s', prepared, soundT, round_of_parts prepared attended concluded, sound, ?_,
    events, services.calm calm⟩
  rw [completed]
  exact accounts

end HaCluster.Monitor
