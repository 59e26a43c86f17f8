import VibeSsh.Basic

/-! # Stored rows

The rows the modelled services read and write, with the fields those services use. -/

namespace VibeSsh

open Lib

inductive PortProtocol where
  | tcp
  | udp
  deriving DecidableEq

def PortProtocol.str : PortProtocol → Text
  | .tcp => "tcp"
  | .udp => "udp"

/-- Who a published port is for; `publicAccess` is the source's `Public`. -/
inductive PortVisibility where
  | publicAccess
  | vibeNetwork
  | localhost
  | custom
  deriving DecidableEq

structure ApplicationPort where
  name : Text
  protocol : PortProtocol
  internalPort : UInt16
  externalPort : Option UInt16
  visibility : PortVisibility
  deriving DecidableEq

structure CustomRule where
  id : Uuid
  label : Option Text
  port : UInt16
  protocol : PortProtocol
  sourceCidr : Option Text
  deriving DecidableEq

inductive RuntimeType where
  | localProcess
  | remoteProcess
  | systemd
  | docker
  deriving DecidableEq

/-- An application on a Node, with its port rows. -/
structure Application where
  id : Uuid
  name : Text
  runtimeType : RuntimeType
  workingDirectory : Text
  ports : List ApplicationPort
  deriving DecidableEq

inductive AuthenticationType where
  | password
  | privateKey
  deriving DecidableEq

structure Server where
  name : Text
  host : Text
  sshPort : UInt16
  username : Text
  authenticationType : AuthenticationType
  privateKeyPath : Option Text
  groupId : Option Uuid
  deriving DecidableEq

/-- What a connection is made to: the host, the port and the account. -/
structure Endpoint where
  host : Text
  port : UInt16
  username : Text
  deriving DecidableEq

def Server.endpoint (server : Server) : Endpoint :=
  ⟨server.host, server.sshPort, server.username⟩

end VibeSsh
