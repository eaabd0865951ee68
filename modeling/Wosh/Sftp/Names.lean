import Wosh.Sftp.Decode
import Wosh.Sftp.Reassembly
import Wosh.Lib.Growing

set_option relaxedAutoImplicit false
set_option autoImplicit false

/-!
# Directory listings on the wire

NAME packets in the layout of the protocol, and the decoder of `sftp/src/lib.rs` against it: what was
written is read back whatever the attributes are, and nothing but the end of the packet is an error.

## Main definitions

* `WoshSftp.WireAttrs`, `WoshSftp.WireEntry`, `WoshSftp.encodeName` — the layout.

## Main results

* `WoshSftp.parseAttrs_encode` — a block of attributes is walked to its end.
* `WoshSftp.total_parseAttrs`, `WoshSftp.total_decodeName` — decoders that fail only for want of input.
* `WoshSftp.decodeName_exact` — both, of whole packets.
-/

namespace WoshSftp

open Tunnel (Bytes)
open Growing (Total Grows total_pair total_pure)
open BigEndian (counted)

/-! ## The layout -/

def putU32 (n : UInt32) : Bytes := BigEndian.bytes 4 n.toNat

def putU64 (n : UInt64) : Bytes := BigEndian.bytes 8 n.toNat

/-- A part that is there if its flag is set. -/
def part (p : Prop) [Decidable p] (b : Bytes) : Bytes := if p then b else []

/-- A block of attributes, with the fields that its flags do not announce. -/
structure WireAttrs where
  flags : UInt32
  size : UInt64
  uid : UInt32
  gid : UInt32
  permissions : UInt32
  atime : UInt32
  mtime : UInt32
  extended : List (Bytes × Bytes)

/-- The extension pairs. -/
def encodePairs (pairs : List (Bytes × Bytes)) : Bytes :=
  (pairs.map fun p => counted p.1 ++ counted p.2).flatten

/-- The block on the wire. -/
def WireAttrs.encode (a : WireAttrs) : Bytes :=
  putU32 a.flags ++ (part (a.flags &&& attrSize ≠ 0) (putU64 a.size) ++
    (part (a.flags &&& attrUidgid ≠ 0) (putU32 a.uid ++ putU32 a.gid) ++
      (part (a.flags &&& attrPermissions ≠ 0) (putU32 a.permissions) ++
        (part (a.flags &&& attrAcmodtime ≠ 0) (putU32 a.atime ++ putU32 a.mtime) ++
          part (a.flags &&& attrExtended ≠ 0)
            (putU32 (UInt32.ofNat a.extended.length) ++ encodePairs a.extended)))))

/-- The lengths and the count have room. -/
structure WireAttrs.Fits (a : WireAttrs) : Prop where
  count : a.extended.length < 2 ^ 32
  pairs : ∀ p ∈ a.extended, p.1.length < 2 ^ 32 ∧ p.2.length < 2 ^ 32

/-- An entry of a listing. -/
structure WireEntry where
  filename : Bytes
  longname : Bytes
  attrs : WireAttrs

/-- The entry on the wire. -/
def WireEntry.encode (e : WireEntry) : Bytes :=
  counted e.filename ++ (counted e.longname ++ e.attrs.encode)

/-- The lengths and the count have room. -/
structure WireEntry.Fits (e : WireEntry) : Prop where
  filename : e.filename.length < 2 ^ 32
  longname : e.longname.length < 2 ^ 32
  attrs : e.attrs.Fits

/-- The body of a NAME packet. -/
def encodeName (id : UInt32) (entries : List WireEntry) : Bytes :=
  sshFxpName :: (putU32 id ++ (putU32 (UInt32.ofNat entries.length) ++
    (entries.map WireEntry.encode).flatten))

/-! ## What was written is read -/

section RoundTrip

variable {rest : Bytes}

theorem take_append (b rest : Bytes) : take b.length (b ++ rest) = .ok (b, rest) := by
  rw [take, if_neg (by simp), List.take_left, List.drop_left]

theorem u32_put (n : UInt32) (rest : Bytes) : u32 (putU32 n ++ rest) = .ok (n, rest) := by
  have hvalue : beNat (putU32 n) = n.toNat := BigEndian.value_bytes n.toNat_lt
  have htake : take 4 (putU32 n ++ rest) = .ok (putU32 n, rest) := by
    have h := take_append (putU32 n) rest
    rwa [putU32, BigEndian.length_bytes] at h
  rw [u32, htake, Fallible.ok_bind]
  dsimp only
  rw [hvalue, UInt32.ofNat_toNat]
  rfl

theorem u64_put (n : UInt64) (rest : Bytes) : u64 (putU64 n ++ rest) = .ok (n, rest) := by
  have hvalue : beNat (putU64 n) = n.toNat := BigEndian.value_bytes n.toNat_lt
  have htake : take 8 (putU64 n ++ rest) = .ok (putU64 n, rest) := by
    have h := take_append (putU64 n) rest
    rwa [putU64, BigEndian.length_bytes] at h
  rw [u64, htake, Fallible.ok_bind]
  dsimp only
  rw [hvalue, UInt64.ofNat_toNat]
  rfl

theorem twoWords_put (m n : UInt32) (rest : Bytes) :
    twoWords (putU32 m ++ putU32 n ++ rest) = .ok ((m, n), rest) := by
  rw [twoWords, List.append_assoc]
  refine Fallible.bind_eq_ok.2 ⟨_, u32_put _ _, ?_⟩
  exact Fallible.bind_eq_ok.2 ⟨_, u32_put _ _, rfl⟩

theorem string_counted {s : Bytes} (h : s.length < 2 ^ 32) (rest : Bytes) :
    string (counted s ++ rest) = .ok (s, rest) := by
  have hlen : (UInt32.ofNat s.length).toNat = s.length := by
    rw [UInt32.toNat_ofNat']
    omega
  have hfront : counted s ++ rest = putU32 (UInt32.ofNat s.length) ++ (s ++ rest) := by
    rw [counted, putU32, hlen, List.append_assoc]
  rw [string, hfront, u32_put, Fallible.ok_bind]
  dsimp only
  rw [hlen, take_append]

/-- A part is read where it is there, and not looked for elsewhere. -/
theorem optional_part {α : Type} {p : Prop} [Decidable p] {read : Bytes → Except Error (α × Bytes)}
    {b : Bytes} {x : α} (h : read (b ++ rest) = .ok (x, rest)) :
    optional p read (part p b ++ rest) = .ok (if p then some x else none, rest) := by
  unfold optional part
  by_cases hp : p
  · simp only [hp, decide_true, if_true]
    rw [h]
    rfl
  · simp only [hp, decide_false, if_false, List.nil_append]
    rfl

/-- The extension pairs are walked past. -/
theorem skipPairs_encode {pairs : List (Bytes × Bytes)}
    (h : ∀ p ∈ pairs, p.1.length < 2 ^ 32 ∧ p.2.length < 2 ^ 32) (rest : Bytes) :
    skipPairs pairs.length (encodePairs pairs ++ rest) = .ok rest := by
  induction pairs with
  | nil => rfl
  | cons p pairs ih =>
    rw [List.forall_mem_cons] at h
    have hsplit : encodePairs (p :: pairs) ++ rest =
        counted p.1 ++ (counted p.2 ++ (encodePairs pairs ++ rest)) := by
      simp only [encodePairs, List.map_cons, List.flatten_cons, List.append_assoc]
    rw [hsplit, List.length_cons, skipPairs]
    refine Fallible.bind_eq_ok.2 ⟨_, string_counted h.1.1 _, ?_⟩
    exact Fallible.bind_eq_ok.2 ⟨_, string_counted h.1.2 _, ih h.2⟩

variable [SftpProtocol]

/-- **A block of attributes is walked to its end**, whatever is in it. -/
theorem parseAttrs_encode {a : WireAttrs} (ha : a.Fits) (rest : Bytes) :
    parseAttrsDefensive (a.encode ++ rest) =
      .ok ({ size := (if a.flags &&& attrSize ≠ 0 then some a.size else none).map UInt64.toNat
             mtime := (if a.flags &&& attrAcmodtime ≠ 0 then some (a.atime, a.mtime)
               else none).map fun t => (SftpProtocol.unixTime t.2).getD 0 },
        if a.flags &&& attrPermissions ≠ 0 then some a.permissions else none, rest) := by
  have hcount : (UInt32.ofNat a.extended.length).toNat = a.extended.length := by
    have h := ha.count
    rw [UInt32.toNat_ofNat']
    omega
  rw [WireAttrs.encode, parseAttrsDefensive]
  simp only [List.append_assoc]
  refine Fallible.bind_eq_ok.2 ⟨_, u32_put _ _, ?_⟩
  refine Fallible.bind_eq_ok.2 ⟨_, optional_part (u64_put _ _), ?_⟩
  refine Fallible.bind_eq_ok.2 ⟨_, optional_part (twoWords_put _ _ _), ?_⟩
  refine Fallible.bind_eq_ok.2 ⟨_, optional_part (u32_put _ _), ?_⟩
  refine Fallible.bind_eq_ok.2 ⟨_, optional_part (twoWords_put _ _ _), ?_⟩
  by_cases hext : a.flags &&& attrExtended ≠ 0
  · refine Fallible.bind_eq_ok.2 ⟨(some (UInt32.ofNat a.extended.length),
      encodePairs a.extended ++ rest), ?_, ?_⟩
    · show optional _ u32 (part (a.flags &&& attrExtended ≠ 0) _ ++ rest) = _
      rw [optional, if_pos (decide_eq_true hext), part, if_pos hext, List.append_assoc]
      exact Fallible.bind_eq_ok.2 ⟨_, u32_put _ _, rfl⟩
    · refine Fallible.bind_eq_ok.2 ⟨rest, ?_, rfl⟩
      rw [Option.elim_some, hcount]
      exact skipPairs_encode ha.pairs rest
  · refine Fallible.bind_eq_ok.2 ⟨(none, rest), ?_, ?_⟩
    · show optional _ u32 (part (a.flags &&& attrExtended ≠ 0) _ ++ rest) = _
      rw [optional, if_neg (fun h => hext (of_decide_eq_true h)), part, if_neg hext]
      rfl
    · exact Fallible.bind_eq_ok.2 ⟨rest, rfl, rfl⟩

/-- What the decoder finds of an entry. -/
def WireEntry.decoded (e : WireEntry) : NameEntry where
  filename := e.filename
  longname := e.longname
  attrs :=
    { size := (if e.attrs.flags &&& attrSize ≠ 0 then some e.attrs.size else none).map UInt64.toNat
      mtime := (if e.attrs.flags &&& attrAcmodtime ≠ 0 then some (e.attrs.atime, e.attrs.mtime)
        else none).map fun t => (SftpProtocol.unixTime t.2).getD 0 }
  rawPermissions :=
    if e.attrs.flags &&& attrPermissions ≠ 0 then some e.attrs.permissions else none

/-- **The entries are read one after another.** -/
theorem nameEntries_encode {entries : List WireEntry} (h : ∀ e ∈ entries, e.Fits) (rest : Bytes) :
    nameEntries entries.length ((entries.map WireEntry.encode).flatten ++ rest) =
      .ok (entries.map WireEntry.decoded) := by
  induction entries with
  | nil => rfl
  | cons e entries ih =>
    rw [List.forall_mem_cons] at h
    obtain ⟨he, hentries⟩ := h
    rw [List.map_cons, List.map_cons, List.flatten_cons, WireEntry.encode, List.length_cons,
      nameEntries]
    simp only [List.append_assoc]
    refine Fallible.bind_eq_ok.2 ⟨_, string_counted he.filename _, ?_⟩
    refine Fallible.bind_eq_ok.2 ⟨_, string_counted he.longname _, ?_⟩
    refine Fallible.bind_eq_ok.2 ⟨_, parseAttrs_encode he.attrs _, ?_⟩
    exact Fallible.bind_eq_ok.2 ⟨_, ih hentries, rfl⟩

/-- A NAME packet is decoded as such. -/
theorem decodeResponse_name {body : Bytes} (h : body.head? = some sshFxpName) :
    decodeResponse body = decodeName body := by
  rw [decodeResponse, h]
  rfl

theorem decodeName_encode {entries : List WireEntry} (h : ∀ e ∈ entries, e.Fits)
    (hcount : entries.length < 2 ^ 32) (id : UInt32) :
    decodeName (encodeName id entries) = .ok (.name id (entries.map WireEntry.decoded)) := by
  have hlen : (UInt32.ofNat entries.length).toNat = entries.length := by
    rw [UInt32.toNat_ofNat']
    omega
  rw [encodeName, decodeName, List.tail_cons]
  refine Fallible.bind_eq_ok.2 ⟨_, u32_put _ _, ?_⟩
  refine Fallible.bind_eq_ok.2 ⟨_, u32_put _ _, ?_⟩
  refine Fallible.bind_eq_ok.2 ⟨_, ?_, rfl⟩
  have hread := nameEntries_encode h []
  rwa [List.append_nil, ← hlen] at hread

end RoundTrip

/-! ## Nothing but the end is an error -/

section Total

theorem total_take (n : ℕ) : Total Error.truncated (take n) where
  append := fun b y d h => by
    unfold take at h ⊢
    split_ifs at h with hlen
    rw [← Except.ok.inj h, if_neg (by simp only [Grows.grow, List.length_append]; omega)]
    simp only [Grows.grow]
    rw [List.take_append_of_le_length (Nat.le_of_not_lt hlen),
      List.drop_append_of_le_length (Nat.le_of_not_lt hlen)]
  more := fun b => by
    refine ⟨List.replicate n 0, _, (if_neg ?_ : take n (b ++ List.replicate n 0) = _)⟩
    rw [List.length_append, List.length_replicate]
    omega
  error := fun b e h => by
    unfold take at h
    split_ifs at h
    exact (Except.error.inj h).symm

theorem total_u32 : Total Error.truncated u32 :=
  (total_take 4).bind (total_pair fun s => total_pure (f := fun b => (UInt32.ofNat (beNat s), b))
    fun _ _ => rfl)

theorem total_u64 : Total Error.truncated u64 :=
  (total_take 8).bind (total_pair fun s => total_pure (f := fun b => (UInt64.ofNat (beNat s), b))
    fun _ _ => rfl)

theorem total_string : Total Error.truncated string :=
  total_u32.bind (total_pair fun n => total_take n.toNat)

theorem total_twoWords : Total Error.truncated twoWords :=
  total_u32.bind (total_pair fun x => total_u32.bind (total_pair fun y =>
    total_pure (f := fun b => ((x, y), b)) fun _ _ => rfl))

theorem total_optional {α : Type} {read : Bytes → Except Error (α × Bytes)} (present : Bool)
    (h : Total Error.truncated read) :
    Total Error.truncated (optional present read) := by
  cases present with
  | true => exact h.bind (total_pair fun x => total_pure (f := fun b => (some x, b)) fun _ _ => rfl)
  | false => exact total_pure (f := fun b => (none, b)) fun _ _ => rfl

theorem total_skipPairs (n : ℕ) : Total Error.truncated (skipPairs n) := by
  induction n with
  | zero => exact total_pure (f := fun b => b) fun _ _ => rfl
  | succ n ih =>
    exact total_string.bind (total_pair fun _ => total_string.bind (total_pair fun _ => ih))

variable [SftpProtocol]

/-- **A block of attributes** is an error only where it ends too early. -/
theorem total_parseAttrs : Total Error.truncated parseAttrsDefensive := by
  refine total_u32.bind (total_pair fun flags => ?_)
  refine (total_optional _ total_u64).bind (total_pair fun size => ?_)
  refine (total_optional _ total_twoWords).bind (total_pair fun _ => ?_)
  refine (total_optional _ total_u32).bind (total_pair fun mode => ?_)
  refine (total_optional _ total_twoWords).bind (total_pair fun times => ?_)
  refine (total_optional _ total_u32).bind (total_pair fun pairs => ?_)
  refine (total_skipPairs _).bind (total_pure ?_)
  intro b more
  rfl

/-- A response is what it is, whatever follows the packet. -/
instance : Grows UInt8 Response where
  grow := fun response _ => response
  grow_append := fun _ _ _ => rfl

/-- The entries, for what is made of them. -/
theorem total_nameEntries (n : ℕ) (make : List NameEntry → Response) :
    Total Error.truncated fun b => nameEntries n b >>= fun es => pure (make es) := by
  induction n generalizing make with
  | zero => exact total_pure (f := fun _ => make []) fun _ _ => rfl
  | succ n ih =>
    simp only [nameEntries, bind_assoc, pure_bind]
    apply total_string.bind
    refine total_pair fun filename => ?_
    dsimp only
    apply total_string.bind
    refine total_pair fun longname => ?_
    dsimp only
    apply total_parseAttrs.bind
    refine total_pair fun attrs => ?_
    have hrest : ∀ rawPermissions : Option UInt32, Total Error.truncated fun b : Bytes =>
        nameEntries n b >>= fun es =>
          pure (make ({ filename, longname, attrs, rawPermissions } :: es)) :=
      fun rawPermissions => ih fun es => make ({ filename, longname, attrs, rawPermissions } :: es)
    exact total_pair hrest

/-- **A NAME packet** is an error only where it ends too early. -/
theorem total_names :
    Total Error.truncated fun b : Bytes => do
      let (id, b) ← u32 b
      let (count, b) ← u32 b
      let entries ← nameEntries count.toNat b
      return Response.name id entries :=
  total_u32.bind (total_pair fun id => total_u32.bind (total_pair fun count =>
    total_nameEntries count.toNat (Response.name id)))

end Total

/-! ## Whole packets -/

/-- **Listings are decoded entry by entry.** Entries that were written are read back: their names, their
sizes and their permission words, in order and whatever else is in them. And the one error there is says
that the packet ends too early, as it does: some continuation of it is decoded. -/
theorem decodeName_exact [SftpProtocol] :
    (∀ (id : UInt32) (entries : List WireEntry), (∀ e ∈ entries, e.Fits) →
      entries.length < 2 ^ 32 → ∃ names : List NameEntry,
        decodeResponse (encodeName id entries) = .ok (.name id names) ∧
        names.map (fun e => (e.filename, e.longname, e.attrs.size, e.rawPermissions)) =
          entries.map fun e => (e.filename, e.longname,
            if e.attrs.flags &&& attrSize ≠ 0 then some e.attrs.size.toNat else none,
            if e.attrs.flags &&& attrPermissions ≠ 0 then some e.attrs.permissions else none)) ∧
    (∀ (body : Bytes) (e : Error), body.head? = some sshFxpName → decodeResponse body = .error e →
      e = .truncated ∧ ∃ (more : Bytes) (response : Response),
        decodeResponse (body ++ more) = .ok response) := by
  constructor
  · intro id entries hfits hcount
    refine ⟨entries.map WireEntry.decoded, ?_, ?_⟩
    · rw [decodeResponse_name rfl, decodeName_encode hfits hcount]
    · rw [List.map_map]
      refine List.map_congr_left fun e _ => ?_
      simp only [Function.comp_apply, WireEntry.decoded, apply_ite (Option.map UInt64.toNat),
        Option.map_some, Option.map_none]
  · intro body e hname herror
    obtain ⟨tail, rfl⟩ := List.head?_eq_some_iff.1 hname
    rw [decodeResponse_name hname] at herror
    obtain ⟨rfl, more, response, hok⟩ := total_names.exists_ok herror
    refine ⟨rfl, more, response, ?_⟩
    rw [decodeResponse_name rfl]
    exact hok

end WoshSftp
