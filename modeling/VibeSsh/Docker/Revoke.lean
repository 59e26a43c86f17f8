import VibeSsh.Docker.Isolation
import VibeSsh.Docker.Session

/-! # Taking a connection back

`disconnect_applications` with everything that can go wrong on the way: an application's secrets
that cannot be read, a Node that cannot be reached, a `docker` command that fails. On an error the
connection goes back into the table, also one that was never there. -/

namespace VibeSsh.Docker

open Lib Session

variable {σ : Type}

/-- What is outside the call: the secrets of an application and the session with its Node, whether
it is another installation's, and the daemons, `none` being this computer's. -/
structure Outside (σ : Type) where
  load : Row → Session σ Unit
  shared : Uuid → Bool
  docker : Option Uuid → Call → Session σ Output

section

variable (lower : Text.Lowercase) (out : Outside σ)

/-- One turn of `apply_connections`; only a container is on networks, and the runtime of a shared
application leaves them alone. -/
def applyConnection (t : Tables) (id : Uuid) : Session σ Unit := do
  let row ← lift (t.getApplication id)
  out.load row
  if out.shared id then pure ()
  else if row.application.runtimeType = .docker then
    Session.syncConnections lower (out.docker row.serverId) row.application (t.linksOf row.id)
  else pure ()

def applyConnections (t : Tables) (ids : List Uuid) : Session σ Unit :=
  each (applyConnection lower out t) ids

/-- `disconnect_applications`: the result, the tables and what is outside. -/
def disconnectApplications (a b : Uuid) (t : Tables) (s : σ) : AppResult Unit × Tables × σ :=
  let removed := t.removeLink a b
  match (applyConnections lower out removed [a, b]).run s with
  | (.ok _, s) => (.ok (), removed, s)
  | (.error e, s) =>
    match removed.addLink a b with
    | .error _ => (.error e, removed, s)
    | .ok restored => (.error e, restored, s)

end

/-! ## Where nothing goes wrong -/

/-- Everything can be loaded and is this installation's, the daemon of one Node does what it is told, and no other daemon has a
container. -/
def withDaemon (server : Option Uuid) : Outside Daemon where
  load _ := pure ()
  shared _ := false
  docker host call := fun d =>
    if host = server then (answer call).run d else (.ok ⟨1, [], []⟩, d)

variable (lower : Text.Lowercase)

theorem run_syncConnections_elsewhere {host server : Option Uuid}
    (h : host ≠ server) (application : Application) (links : List Uuid) (d : Daemon) :
    (Session.syncConnections lower ((withDaemon server).docker host) application links).run d =
      (.ok (), d) := by
  have hinspect : ((withDaemon server).docker host (.inspect application.id)).run d =
      (.ok ⟨1, [], []⟩, d) := if_neg h
  have hexists : (containerExists ((withDaemon server).docker host) application.id).run d =
      (.ok false, d) := by
    unfold containerExists
    rw [bind_ok (run_lift_ok (validateContainerRef_containerName application.id) d),
      bind_ok hinspect]
    rfl
  unfold Session.syncConnections
  rw [bind_ok hexists]
  rfl

/-- **With nothing going wrong, a step does to the daemon what `Links` says.** -/
theorem run_applyConnection (w : World) {id : Uuid} {row : Row}
    (hrow : w.tables.getApplication id = .ok row) :
    (applyConnection lower (withDaemon w.server) w.tables id).run w.daemon =
      (.ok (), (w.syncConnections row).daemon) := by
  have hload : ((withDaemon w.server).load row).run w.daemon = (.ok (), w.daemon) := rfl
  unfold applyConnection World.syncConnections
  rw [bind_ok (run_lift_ok hrow w.daemon), bind_ok hload,
    if_neg (show ¬ (withDaemon w.server).shared id = true from Bool.false_ne_true)]
  by_cases hdocker : row.application.runtimeType = .docker
  · rw [if_pos hdocker]
    by_cases hhere : row.serverId = w.server
    · have hsame : (withDaemon w.server).docker row.serverId = answer := by
        funext call d
        exact if_pos hhere
      rw [if_pos ⟨hdocker, hhere⟩, hsame, run_syncConnections]
      rfl
    · rw [if_neg fun h => hhere h.2, run_syncConnections_elsewhere lower hhere]
  · rw [if_neg hdocker, if_neg fun h => hdocker h.1]
    rfl

theorem run_applyConnections (w : World) (ids : List Uuid) :
    (applyConnections lower (withDaemon w.server) w.tables ids).run w.daemon =
      ((w.applyConnections ids).1, (w.applyConnections ids).2.daemon) := by
  induction ids generalizing w with
  | nil => rfl
  | cons id ids ih =>
    unfold World.applyConnections applyConnections each
    cases hrow : w.tables.getApplication id with
    | error e =>
      have hread : (lift (σ := Daemon) (w.tables.getApplication id)).run w.daemon =
          (.error e, w.daemon) := congrArg (·, w.daemon) hrow
      rw [bind_error (show (applyConnection lower (withDaemon w.server) w.tables id).run w.daemon =
        (.error e, w.daemon) from bind_error hread)]
    | ok row =>
      have hkeeps : (w.syncConnections row).tables = w.tables ∧
          (w.syncConnections row).server = w.server := by
        unfold World.syncConnections
        split <;> exact ⟨rfl, rfl⟩
      have hrest := ih (w.syncConnections row)
      rw [hkeeps.1, hkeeps.2] at hrest
      rw [bind_ok (run_applyConnection lower w hrow)]
      exact hrest

theorem disconnectApplications_withDaemon (w : World) (a b : Uuid) :
    disconnectApplications lower (withDaemon w.server) a b w.tables w.daemon =
      ((w.disconnectApplications a b).1, (w.disconnectApplications a b).2.tables,
        (w.disconnectApplications a b).2.daemon) := by
  have htables : ∀ (w : World) ids, (w.applyConnections ids).2.tables = w.tables := by
    intro w ids
    induction ids generalizing w with
    | nil => rfl
    | cons id ids ih =>
      unfold World.applyConnections
      split
      · rfl
      · rw [ih]
        unfold World.syncConnections
        split <;> rfl
  have hrun : (applyConnections lower (withDaemon w.server) (w.tables.removeLink a b) [a, b]).run
      w.daemon = _ := run_applyConnections lower (w.withTables (w.tables.removeLink a b)) [a, b]
  have hkept := htables (w.withTables (w.tables.removeLink a b)) [a, b]
  unfold disconnectApplications World.disconnectApplications
  dsimp only
  rw [hrun]
  rcases hresult : (w.withTables (w.tables.removeLink a b)).applyConnections [a, b] with ⟨r, w'⟩
  rw [hresult] at hkept
  replace hkept : w'.tables = w.tables.removeLink a b := hkept
  cases r with
  | ok _ => simp only [hkept]
  | error e =>
    dsimp only
    rw [hkept]
    cases (w.tables.removeLink a b).addLink a b with
    | error _ => simp only [hkept]
    | ok t => rfl

/-! ## Where something does -/

theorem addLink_cases (t : Tables) (a b : Uuid) :
    ((a = b ∨ ¬ (a ∈ t.rows.map Row.id ∧ b ∈ t.rows.map Row.id)) ∧ ∃ e, t.addLink a b = .error e) ∨
      (a ≠ b ∧ (a ∈ t.rows.map Row.id ∧ b ∈ t.rows.map Row.id) ∧ ∃ t', t.addLink a b = .ok t' ∧
        ∀ p, p ∈ t'.links ↔ p ∈ t.links ∨ p = orderedPair a b) := by
  unfold Tables.addLink
  by_cases hne : a = b
  · exact .inl ⟨.inl hne, _, dif_pos hne⟩
  by_cases hknown : a ∈ t.rows.map Row.id ∧ b ∈ t.rows.map Row.id
  · refine .inr ⟨hne, hknown, t.insertLink a b hne hknown, ?_, fun p => ?_⟩
    · rw [dif_neg hne, dif_pos hknown]
    · unfold Tables.insertLink
      split
      · next hmem =>
        refine ⟨.inl, ?_⟩
        rintro (hp | rfl)
        · exact hp
        · exact hmem
      · simp
  · exact .inl ⟨.inr hknown, _, by rw [dif_neg hne, dif_neg hknown]⟩

/-- Everything outside fails: no session comes about. -/
def refused : Outside σ where
  load _ := fail (.connection "SSH connection failed: Connection refused")
  shared _ := false
  docker _ _ := fail (.connection "the SSH connection is closing")

end VibeSsh.Docker
