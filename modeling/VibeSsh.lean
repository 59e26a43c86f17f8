import VibeSsh.Cloud.Session
import VibeSsh.Applications.HealthCheck
import VibeSsh.Applications.Lifecycle
import VibeSsh.Files.Escape
import VibeSsh.Team.ReadOnlyRole
import VibeSsh.Ai.Passes
import VibeSsh.Ai.SecretNames
import VibeSsh.Ai.Secrecy
import VibeSsh.Schedules.Sync
import VibeSsh.Backups.Restore
import VibeSsh.Docker.LinkTable
import VibeSsh.Network.Membership
import VibeSsh.Team.FileRoots
import VibeSsh.Files.History
import VibeSsh.Logs.Archives
import VibeSsh.Logs.Interleaving
import VibeSsh.Logs.Size
import VibeSsh.Firewall.Reconcile
import VibeSsh.Firewall.Ownership
import VibeSsh.Backend.Restricted
import VibeSsh.Backend.CodeReplay
import VibeSsh.Firewall.ContainerChain
import VibeSsh.Network.HostsBlock
import VibeSsh.Ssh.HostKeys
import VibeSsh.Ssh.SessionCache
import VibeSsh.Ssh.Sessions
import VibeSsh.Applications.MigrationRollback
import VibeSsh.Team.Revocations
import VibeSsh.Team.Sweep
import VibeSsh.Agent.Pairing
import VibeSsh.Agent.SessionLock
import VibeSsh.Agent.Silence
import VibeSsh.Applications.ConfigRaces
import VibeSsh.Ssh.CommandSlots
import VibeSsh.Team.MemberRuntime
import VibeSsh.Backups.Retention
import VibeSsh.Backend.AiQuota
import VibeSsh.Databases.Install
import VibeSsh.Backend.ResetCodes
import VibeSsh.Backend.RateLimit
