import Wosh.Transfer.Plan

set_option relaxedAutoImplicit false
set_option autoImplicit false

/-!
# SFTP responses

What a response packet says once it is decoded, `sftp/src/lib.rs`.

## Main definitions

* `WoshSftp.Error` — what can go wrong with one.
* `WoshSftp.Response` — a decoded response.
* `WoshSftp.Response.requestId`, `WoshSftp.Response.describe` — the request it answers, and what it is
  called in an error.

## Design

The error codes and the file attributes are types of the `openssh-sftp-protocol` crate, which is not
part of the repository. Of a code the client tells apart only `NoSuchFile`, so every other one is
known by its `Debug` form; of attributes it reads the size and the modification time.
-/

namespace WoshSftp

open Tunnel (Bytes)
open Transfer (StatusOutcome)

/-- What can go wrong with a response. -/
inductive Error
  | truncated
  | malformed (m : String)
  | packetTooLarge (n : UInt32)
  | unknownRequestId (id : UInt32)
deriving DecidableEq

/-- `Display`. -/
def Error.text : Error → String
  | .truncated => "sftp packet truncated"
  | .malformed m => "sftp packet malformed: " ++ m
  | .packetTooLarge n => "sftp packet too large: " ++ toString n ++ " bytes"
  | .unknownRequestId id => "sftp response for unknown request id " ++ toString id

/-- The code of a STATUS that is an error. -/
inductive ErrorCode
  | noSuchFile
  | other (debug : String)
deriving DecidableEq

/-- The `Debug` form of a code. -/
def ErrorCode.debug : ErrorCode → String
  | .noSuchFile => "NoSuchFile"
  | .other debug => debug

/-- A STATUS with any other code than OK and EOF. -/
structure StatusError where
  code : ErrorCode
  message : String
deriving DecidableEq

/-- `Display`. -/
def StatusError.text (e : StatusError) : String := e.code.debug ++ ": " ++ e.message

/-- The attributes of a file, as far as the server reports them. -/
structure FileAttrs where
  size : Option ℕ := none
  mtime : Option ℕ := none
deriving DecidableEq

/-- One entry of a NAME response. -/
structure NameEntry where
  filename : Bytes
  longname : Bytes := []
  attrs : FileAttrs := {}
  /-- The `permissions` word off the wire. -/
  rawPermissions : Option UInt32 := none
deriving DecidableEq

/-- A decoded response. -/
inductive Response
  /-- The answer to INIT; whether it advertises `limits@openssh.com`. -/
  | version (limits : Bool)
  | status (id : UInt32) (result : Except StatusError StatusOutcome)
  | handle (id : UInt32) (handle : Bytes)
  | data (id : UInt32) (data : Bytes)
  | name (id : UInt32) (entries : List NameEntry)
  | attrs (id : UInt32) (attrs : FileAttrs)
  | extendedReply (id : UInt32) (payload : Bytes)
deriving DecidableEq

namespace Response

/-- The id of the request that a response answers (`response_id`). -/
def requestId : Response → Option UInt32
  | .version _ => none
  | .status id _ | .handle id _ | .data id _ | .name id _ | .attrs id _ | .extendedReply id _ =>
    some id

/-- `describe`. -/
def describe : Response → String
  | .version _ => "a version"
  | .status _ _ => "a status"
  | .handle _ _ => "a handle"
  | .data _ _ => "data"
  | .name _ _ => "a name list"
  | .attrs _ _ => "attributes"
  | .extendedReply _ _ => "an extended reply"

end Response

end WoshSftp
