import VibeSsh.Lib.Text

/-! # Errors and identifiers

`AppError` as far as the modelled functions build or branch on it, with the texts they carry; how a
failing step ends a `?` chain; and `Uuid`, the key of every stored row. -/

namespace VibeSsh

open Lib

/-- A row's identifier, by its `simple` rendering: 32 lowercase hexadecimal digits. -/
structure Uuid where
  simple : Text
  wf : simple.length = 32 ∧ simple.all (fun c => c.isDigit || ('a' ≤ c && c ≤ 'f')) = true
  deriving DecidableEq

instance : LawfulBEq (Uuid × Text) := inferInstance

inductive AppError where
  | notFound (message : Text)
  | invalidInput (message : Text)
  | storage (message : Text)
  | connection (message : Text)
  | internal (message : Text)
  | unauthorized (message : Text)
  | passwordRequired (server : Text)
  | serverHasApplications (server applications : Text)
  | portInUse (port : UInt16) (protocol : Text) (owner : Option Text)
  | cronMissing (serverId : Uuid)
  | dockerUnavailable
  | networkLeaveHasMeshPorts (ports : List Text)
  | sharedActionNotAllowed (action : Text)
  | timeout (operation : Text) (seconds : Nat)
  | hostKeyMismatch (host : Text) (serverId : Option Uuid) (expected presented : Option Text)
  | sshAuthRejected (username method : Text) (serverId : Option Uuid)
  | migrationHasDatabases (databases : Text)
  deriving DecidableEq

abbrev AppResult := Except AppError

/-- `is_transport_failure`: the errors a dead SSH session shows itself by. -/
def AppError.isTransportFailure : AppError → Bool
  | .connection _ => true
  | .internal _ => true
  | _ => false

def AppError.display : AppError → Text
  | .notFound message => "not found: " ++ message
  | .invalidInput message => "invalid input: " ++ message
  | .storage message => "storage error: " ++ message
  | .connection message => "connection error: " ++ message
  | .internal message => "internal error: " ++ message
  | .unauthorized message => "unauthorized: " ++ message
  | .passwordRequired _ => "a password is needed to connect to this Node"
  | .serverHasApplications server applications =>
    server ++ " still has applications on it (" ++ applications ++
      ") - delete them or migrate them to another Node first"
  | .portInUse port protocol _ =>
    "port " ++ Text.ofNat port.toNat ++ '/' :: protocol ++ " is already in use"
  | .cronMissing _ => "this Node has no cron, which schedules need to run"
  | .dockerUnavailable => "Docker isn't available on this Node"
  | .networkLeaveHasMeshPorts ports =>
    "this Node still has ports set to Vibe Network only (" ++ Text.join ", " ports ++
      ") - change them before it leaves"
  | .sharedActionNotAllowed action =>
    "your account may not do that with this shared application (" ++ action ++
      ") - ask its owner for it in the application's Users tab"
  | .timeout operation seconds =>
    operation ++ " didn't finish within " ++ Text.ofNat seconds ++ " seconds"
  | .hostKeyMismatch _ _ _ _ =>
    "the Node's host key doesn't match the one VibeSSH saw before"
  | .sshAuthRejected username _ _ =>
    "the Node rejected the SSH login for " ++ username ++
      " - check the username, password or key"
  | .migrationHasDatabases databases =>
    "this application uses databases on its current Node (" ++ databases ++
      "), which migration doesn't move - back them up and remove them from the application first"

def Uuid.nil : Uuid := ⟨List.replicate 32 '0', by decide⟩

def Uuid.max : Uuid := ⟨List.replicate 32 'f', by decide⟩

/-- The identifier of one hexadecimal digit, for runs at fixed inputs. -/
def Uuid.repeated (d : Nat) : Uuid :=
  ⟨List.replicate 32 (Nat.digitChar (d % 16)), by
    have hdigits : ∀ n < 16, (List.replicate 32 (Nat.digitChar n)).length = 32 ∧
        (List.replicate 32 (Nat.digitChar n)).all
          (fun c => c.isDigit || ('a' ≤ c && c ≤ 'f')) = true := by decide
    exact hdigits _ (Nat.mod_lt _ (by decide))⟩

/-- `Display` of an identifier: the digits in groups of 8, 4, 4, 4 and 12. -/
def Uuid.display (id : Uuid) : Text :=
  Text.join ['-'] [id.simple.take 8, (id.simple.drop 8).take 4, (id.simple.drop 12).take 4,
    (id.simple.drop 16).take 4, id.simple.drop 20]

/-- The `?` operator: a chain returns a value only if its first step does. -/
theorem try_ok_iff {ε α β : Type} {first : Except ε α} {next : α → Except ε β} {r : β} :
    first >>= next = .ok r ↔ ∃ v, first = .ok v ∧ next v = .ok r := by
  rcases first with e | v <;> simp [Bind.bind, Except.bind]

theorem guard_ok_iff {p : Prop} [Decidable p] {e : AppError} :
    (if p then .error e else .ok () : AppResult Unit) = .ok () ↔ ¬p := by
  by_cases hp : p <;> simp [hp]

end VibeSsh
