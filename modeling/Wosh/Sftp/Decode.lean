import Wosh.Sftp.Framer

set_option relaxedAutoImplicit false
set_option autoImplicit false

/-!
# Decoding a response

`decode_response` of `sftp/src/lib.rs`. NAME, DATA and EXTENDED_REPLY packets are decoded here; VERSION,
STATUS, HANDLE and ATTRS packets by the library.

## Main definitions

* `WoshSftp.SftpProtocol` — the library.
* `WoshSftp.parseAttrsDefensive`, `WoshSftp.decodeName` — an ATTRS block, and a NAME packet.
* `WoshSftp.decodeResponse` — a response.

## Design

The `openssh-sftp-protocol` and `ssh_format` crates are not part of the repository: they are the class
`SftpProtocol`. The owner and the typed permissions of a file, which nobody reads, are walked past.
-/

namespace WoshSftp

open Tunnel (Bytes)
open Transfer (StatusOutcome)

/-! ## The library -/

/-- The code of a STATUS. -/
inductive StatusCode
  | success
  | eof
  | failure (code : ErrorCode)
deriving DecidableEq

/-- What the library decodes. A NAME packet is intercepted before it gets there. -/
inductive ResponseInner
  | status (statusCode : StatusCode) (errMsg : String)
  | handle (handle : Bytes)
  | attrs (attrs : FileAttrs)
deriving DecidableEq

/-- The crates that decode the rest, with the texts of their errors. -/
class SftpProtocol where
  /-- `ServerVersion::deserialize`: whether the server advertises `limits@openssh.com`. -/
  serverVersion : Bytes → Except String Bool
  /-- `ssh_format::from_bytes`: a response and the id of its request. -/
  fromBytes : Bytes → Except String (UInt32 × ResponseInner)
  /-- `UnixTimeStamp::from_raw`, as the seconds it stands for. -/
  unixTime : UInt32 → Option ℕ

/-! ## Reading -/

/-- The next `n` bytes, and what follows them (`Reader::take`). -/
def take (n : ℕ) (b : Bytes) : Except Error (Bytes × Bytes) :=
  if b.length < n then .error .truncated else .ok (b.take n, b.drop n)

def u32 (b : Bytes) : Except Error (UInt32 × Bytes) := do
  let (s, rest) ← take 4 b
  return (UInt32.ofNat (beNat s), rest)

def u64 (b : Bytes) : Except Error (UInt64 × Bytes) := do
  let (s, rest) ← take 8 b
  return (UInt64.ofNat (beNat s), rest)

/-- A length and that many bytes, no encoding implied. -/
def string (b : Bytes) : Except Error (Bytes × Bytes) := do
  let (n, rest) ← u32 b
  take n.toNat rest

/-- A part that is there if its flag is set. -/
def optional {α : Type} (present : Bool) (read : Bytes → Except Error (α × Bytes)) (b : Bytes) :
    Except Error (Option α × Bytes) :=
  if present then do
    let (x, rest) ← read b
    return (some x, rest)
  else return (none, b)

/-- Two words, one after the other. -/
def twoWords (b : Bytes) : Except Error ((UInt32 × UInt32) × Bytes) := do
  let (x, b) ← u32 b
  let (y, b) ← u32 b
  return ((x, y), b)

/-- Walk past so many extension pairs. -/
def skipPairs : ℕ → Bytes → Except Error Bytes
  | 0, b => return b
  | n + 1, b => do
    let (_, b) ← string b
    let (_, b) ← string b
    skipPairs n b

/-- `SSH_FILEXFER_ATTR_SIZE`. -/
def attrSize : UInt32 := 0x1

/-- `SSH_FILEXFER_ATTR_UIDGID`. -/
def attrUidgid : UInt32 := 0x2

/-- `SSH_FILEXFER_ATTR_PERMISSIONS`. -/
def attrPermissions : UInt32 := 0x4

/-- `SSH_FILEXFER_ATTR_ACMODTIME`. -/
def attrAcmodtime : UInt32 := 0x8

/-- `ATTR_EXTENDED`. -/
def attrExtended : UInt32 := 0x80000000

section Decode

variable [SftpProtocol]

/-- Parse one ATTRS block, without regard to what its permissions are: the attributes, the permissions
word, and what follows the block. -/
def parseAttrsDefensive (b : Bytes) : Except Error (FileAttrs × Option UInt32 × Bytes) := do
  let (flags, b) ← u32 b
  let (size, b) ← optional (flags &&& attrSize ≠ 0) u64 b
  let (_, b) ← optional (flags &&& attrUidgid ≠ 0) twoWords b
  let (mode, b) ← optional (flags &&& attrPermissions ≠ 0) u32 b
  let (times, b) ← optional (flags &&& attrAcmodtime ≠ 0) twoWords b
  let (pairs, b) ← optional (flags &&& attrExtended ≠ 0) u32 b
  let b ← skipPairs (pairs.elim 0 UInt32.toNat) b
  return ({ size := size.map UInt64.toNat,
            mtime := times.map fun t => (SftpProtocol.unixTime t.2).getD 0 }, mode, b)

/-- So many entries of a NAME packet. -/
def nameEntries : ℕ → Bytes → Except Error (List NameEntry)
  | 0, _ => return []
  | n + 1, b => do
    let (filename, b) ← string b
    let (longname, b) ← string b
    let (attrs, rawPermissions, b) ← parseAttrsDefensive b
    let entries ← nameEntries n b
    return { filename, longname, attrs, rawPermissions } :: entries

def decodeName (body : Bytes) : Except Error Response := do
  let (id, b) ← u32 body.tail
  let (count, b) ← u32 b
  let entries ← nameEntries count.toNat b
  return .name id entries

def decodeData (body : Bytes) : Except Error Response := do
  let (id, b) ← u32 body.tail
  let (data, _) ← string b
  return .data id data

def decodeExtendedReply (body : Bytes) : Except Error Response := do
  let (id, b) ← u32 body.tail
  return .extendedReply id b

def decodeVersion (body : Bytes) : Except Error Response :=
  match SftpProtocol.serverVersion body with
  | .ok limits => .ok (.version limits)
  | .error e => .error (.malformed e)

/-- `translate_status`. -/
def translateStatus : StatusCode → String → Except StatusError StatusOutcome
  | .success, _ => .ok .ok
  | .eof, _ => .ok .eof
  | .failure code, errMsg => .error ⟨code, errMsg⟩

/-- `decode_via_library`. -/
def decodeViaLibrary (body : Bytes) : Except Error Response :=
  match SftpProtocol.fromBytes body with
  | .error e => .error (.malformed e)
  | .ok (id, .status code errMsg) => .ok (.status id (translateStatus code errMsg))
  | .ok (id, .handle handle) => .ok (.handle id handle)
  | .ok (id, .attrs attrs) => .ok (.attrs id attrs)

/-- `SSH_FXP_VERSION`. -/
def sshFxpVersion : UInt8 := 2

/-- `SSH_FXP_DATA`. -/
def sshFxpData : UInt8 := 103

/-- `SSH_FXP_NAME`. -/
def sshFxpName : UInt8 := 104

/-- `SSH_FXP_EXTENDED_REPLY`. -/
def sshFxpExtendedReply : UInt8 := 201

/-- Decode one complete packet body. -/
def decodeResponse (body : Bytes) : Except Error Response :=
  match body.head? with
  | none => .error .truncated
  | some kind =>
    if kind = sshFxpVersion then decodeVersion body
    else if kind = sshFxpName then decodeName body
    else if kind = sshFxpData then decodeData body
    else if kind = sshFxpExtendedReply then decodeExtendedReply body
    else decodeViaLibrary body

end Decode

end WoshSftp
