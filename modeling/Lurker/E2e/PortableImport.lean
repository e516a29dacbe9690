import Lurker.Lib.JsonRoundTrip
import Lurker.E2e.Portable

/-!
# Export and import

A document that was built from a keyring is validated to that keyring. Any other text is judged:
either it is well formed and the rows it gives have their types and lengths, or it is refused with
an error of the keyring, or a property of null is read or a version is shown that has no string.
-/

namespace Lurker.E2e.Portable

variable {Num : Type} {P : Platform Num}

def IdentityRow.WellTyped (P : Platform Num) (i : IdentityRow Num) : Prop :=
  i.pubkey.length = 32 ∧ i.privkey.length = 32 ∧ i.fingerprint.length = 16 ∧ P.isInteger i.createdAt

def PeerRecord.WellTyped (P : Platform Num) (p : PeerRecord Num) : Prop :=
  p.fingerprint.length = 16 ∧ p.pubkey.length = 32 ∧ P.isInteger p.firstSeen ∧ P.isInteger p.lastSeen

def IncomingSession.WellTyped (P : Platform Num) (s : IncomingSession Num) : Prop :=
  s.fingerprint.length = 16 ∧ s.sk.length = 32 ∧ P.isInteger s.createdAt

def OutgoingSession.WellTyped (P : Platform Num) (o : OutgoingSession Num) : Prop :=
  o.sk.length = 32 ∧ P.isInteger o.createdAt

/-- Every field has its type and length; those of the other rows are texts and flags. -/
structure ValidatedKeyring.WellTyped (P : Platform Num) (k : ValidatedKeyring Num) : Prop where
  identity : k.identity.WellTyped P
  peers : ∀ p ∈ k.peers, p.WellTyped P
  incoming : ∀ s ∈ k.incoming, s.WellTyped P
  outgoing : ∀ o ∈ k.outgoing, o.WellTyped P

/-- A number that is an integer is read back from its text, and 1 is one. -/
structure Platform.Lawful (P : Platform Num) : Prop where
  version : P.isInteger P.exportVersion
  readsBack : ∀ n, P.isInteger n → P.ReadsBack n

theorem hexValue_hexDigit {n : Nat} (h : n < 16) : Json.hexValue (Json.hexDigit n) = some n :=
  Json.hexValue_hexDigit n h

theorem unhex_hex (bs : Bytes) : unhex (hex bs) = bs := by
  induction bs with
  | nil => rfl
  | cons b bs ih =>
    have hb := b.toNat_lt
    show UInt8.ofNat _ :: unhex (hex bs) = b :: bs
    rw [ih, hexValue_hexDigit (by omega), hexValue_hexDigit (by omega), Option.getD_some,
      Option.getD_some, show 16 * (b.toNat / 16) + b.toNat % 16 = b.toNat by omega,
      UInt8.ofNat_toNat]

theorem isHex_hex (bs : Bytes) : isHex (hex bs) := by
  induction bs with
  | nil => rfl
  | cons b bs ih =>
    have hb := b.toNat_lt
    have hhigh := hexValue_hexDigit (n := b.toNat / 16) (by omega)
    have hlow := hexValue_hexDigit (n := b.toNat % 16) (by omega)
    show ((Json.hexValue _).isSome && ((Json.hexValue _).isSome && isHex (hex bs))) = true
    rw [ih, hhigh, hlow]
    rfl

theorem length_hex (bs : Bytes) : (hex bs).length = bs.length * 2 := by
  induction bs with
  | nil => rfl
  | cons b bs ih =>
    show (hex bs).length + 2 = _
    rw [ih, List.length_cons, Nat.add_mul]

@[simp] theorem parseHex_hexJson {field : String} {bs : Bytes} {len : Nat} (h : bs.length = len) :
    parseHex field (some (hexJson bs : Json Num)) len = .ok bs := by
  show (if isHex (hex bs) then if _ then _ else _ else _) = _
  rw [if_pos (isHex_hex bs), if_neg (by rw [length_hex, h]; exact fun hne => hne rfl), unhex_hex]

theorem nullableStr_nullableJson (field : String) (s : Option CodeUnits) :
    nullableStr field (some (nullableJson s : Json Num)) = .ok s := by
  cases s <;> rfl

theorem intField_num {field : String} {n : Num} (h : P.isInteger n) :
    intField P field (some (.num n)) = .ok n :=
  if_pos h

theorem parseStatus_statusText (s : TrustStatus) : parseStatus (statusText s) = s := by
  cases s <;> decide

theorem parseMode_modeText (m : ChannelMode) : parseMode (modeText m) = m := by
  cases m <;> decide

theorem read_ok {α : Type} {record : Json Num} {name : String} {v : Option (Json Num)}
    {k : Option (Json Num) → Except Thrown α} (hread : read record name = .ok v) :
    (read record name >>= k) = k v := by
  rw [hread]
  rfl

/-- A property that is there and passes its check. -/
theorem field_ok {α β : Type} {record : Json Num} {name : String} {v : Option (Json Num)}
    {check : Option (Json Num) → Except Thrown α} {a : α} {k : α → Except Thrown β}
    (hread : read record name = .ok v) (hcheck : check v = .ok a) :
    (read record name >>= fun v => check v >>= k) = k a := by
  rw [read_ok hread, hcheck]
  rfl

theorem parseIdentity_identityJson {i : IdentityRow Num} (h : i.WellTyped P) :
    parseIdentity P (identityJson i) = .ok i := by
  obtain ⟨hpub, hpriv, hfp, hcreated⟩ := h
  refine (field_ok rfl (parseHex_hexJson hpub)).trans ?_
  refine (field_ok rfl (parseHex_hexJson hpriv)).trans ?_
  refine (field_ok rfl (parseHex_hexJson hfp)).trans ?_
  exact field_ok rfl (intField_num hcreated)

theorem parsePeer_peerJson {p : PeerRecord Num} (h : p.WellTyped P) (i : Nat) :
    parsePeer P i (peerJson p) = .ok p := by
  obtain ⟨hfp, hpub, hfirst, hlast⟩ := h
  refine (field_ok rfl (parseHex_hexJson hfp)).trans ?_
  refine (field_ok rfl (parseHex_hexJson hpub)).trans ?_
  refine (field_ok rfl (nullableStr_nullableJson _ p.lastHandle)).trans ?_
  refine (field_ok rfl (nullableStr_nullableJson _ p.lastNick)).trans ?_
  refine (field_ok rfl (intField_num hfirst)).trans ?_
  refine (field_ok rfl (intField_num hlast)).trans ?_
  refine (field_ok (a := statusText p.globalStatus) rfl rfl).trans ?_
  rw [parseStatus_statusText]
  rfl

theorem parseIncoming_incomingJson {s : IncomingSession Num} (h : s.WellTyped P) (i : Nat) :
    parseIncoming P i (incomingJson s) = .ok s := by
  obtain ⟨hfp, hsk, hcreated⟩ := h
  refine (field_ok (a := s.handle) rfl rfl).trans ?_
  refine (field_ok (a := s.channel) rfl rfl).trans ?_
  refine (field_ok rfl (parseHex_hexJson hfp)).trans ?_
  refine (field_ok rfl (parseHex_hexJson hsk)).trans ?_
  refine (field_ok (a := statusText s.status) rfl rfl).trans ?_
  refine (field_ok rfl (intField_num hcreated)).trans ?_
  rw [parseStatus_statusText]
  rfl

theorem parseOutgoing_outgoingJson {o : OutgoingSession Num} (h : o.WellTyped P) (i : Nat) :
    parseOutgoing P i (outgoingJson o) = .ok o := by
  obtain ⟨hsk, hcreated⟩ := h
  refine (field_ok (a := o.channel) rfl rfl).trans ?_
  refine (field_ok rfl (parseHex_hexJson hsk)).trans ?_
  exact field_ok rfl (intField_num hcreated)

theorem parseChannel_channelJson (c : ChannelConfig) (i : Nat) :
    parseChannel i (channelJson c : Json Num) = .ok c := by
  refine (field_ok (a := c.channel) rfl rfl).trans ?_
  refine (read_ok (v := some (.bool c.enabled)) rfl).trans ?_
  refine (field_ok (a := modeText c.mode) rfl rfl).trans ?_
  rw [parseMode_modeText]
  rfl

theorem parseAutotrust_autotrustJson (a : AutotrustRule) (i : Nat) :
    parseAutotrust i (autotrustJson a : Json Num) = .ok a := by
  refine (field_ok (a := a.scope) rfl rfl).trans ?_
  exact field_ok (a := a.handlePattern) rfl rfl

theorem mapFrom_map {α : Type} {f : Nat → Json Num → Except Thrown α} {g : α → Json Num}
    {as : List α} (h : ∀ a ∈ as, ∀ i, f i (g a) = .ok a) (i : Nat) :
    mapFrom f i (as.map g) = .ok as := by
  induction as generalizing i with
  | nil => rfl
  | cons a as ih =>
    rw [List.map_cons, mapFrom, h a List.mem_cons_self]
    show (mapFrom f (i + 1) (as.map g) >>= fun as => .ok (a :: as)) = _
    rw [ih fun b hb => h b (List.mem_cons_of_mem _ hb)]
    rfl

/-- A document that was built is validated to the rows it was built from. -/
theorem validate_buildPortable [DecidableEq Num] {input : ExportInput Num}
    (h : input.toValidatedKeyring.WellTyped P) :
    validate P (buildPortable P input) = .ok input.toValidatedKeyring := by
  have hversion : checkVersion P (some (.num P.exportVersion)) = .ok () :=
    if_pos (decide_eq_true rfl)
  have hidentity := parseIdentity_identityJson h.identity
  have hpeers := mapFrom_map (fun p hp i => parsePeer_peerJson (h.peers p hp) i) 0
  have hincoming := mapFrom_map (fun s hs i => parseIncoming_incomingJson (h.incoming s hs) i) 0
  have houtgoing := mapFrom_map (fun o ho i => parseOutgoing_outgoingJson (h.outgoing o ho) i) 0
  have hchannels := mapFrom_map (g := (channelJson : _ → Json Num))
    (fun c (_ : c ∈ input.channels) i => parseChannel_channelJson c i) 0
  have hautotrust := mapFrom_map (g := (autotrustJson : _ → Json Num))
    (fun a (_ : a ∈ input.autotrust) i => parseAutotrust_autotrustJson a i) 0
  show (checkVersion P (some (.num P.exportVersion)) >>= fun _ => _) = _
  rw [hversion]
  show (parseIdentity P (identityJson input.identity) >>= fun _ => _) = _
  rw [hidentity]
  show (mapFrom (parsePeer P) 0 (input.peers.map peerJson) >>= fun _ => _) = _
  rw [hpeers]
  show (mapFrom (parseIncoming P) 0 (input.incoming.map incomingJson) >>= fun _ => _) = _
  rw [hincoming]
  show (mapFrom (parseOutgoing P) 0 (input.outgoing.map outgoingJson) >>= fun _ => _) = _
  rw [houtgoing]
  show (mapFrom parseChannel 0 (input.channels.map channelJson) >>= fun _ => _) = _
  rw [hchannels]
  show (mapFrom parseAutotrust 0 (input.autotrust.map autotrustJson) >>= fun _ => _) = _
  rw [hautotrust]
  rfl

theorem numbersOfElements {p : Num → Prop} {vs : List (Json Num)} (h : ∀ v ∈ vs, v.Numbers p) :
    Json.NumbersOfElements p vs := by
  induction vs with
  | nil => trivial
  | cons v vs ih => exact ⟨h v List.mem_cons_self, ih fun w hw => h w (List.mem_cons_of_mem _ hw)⟩

theorem numbers_nullableJson {p : Num → Prop} (s : Option CodeUnits) :
    (nullableJson s).Numbers p := by
  cases s <;> trivial

/-- Every number of a document that was built is read back. -/
theorem numbers_buildPortable (hP : P.Lawful) {input : ExportInput Num}
    (h : input.toValidatedKeyring.WellTyped P) (hexported : P.isInteger input.exportedAt) :
    (buildPortable P input).Numbers P.ReadsBack := by
  have hback := hP.readsBack
  refine ⟨hback _ hP.version, hback _ hexported, ?_, ?_, ?_, ?_, ?_, ?_, trivial⟩
  · exact ⟨trivial, trivial, trivial, hback _ h.identity.2.2.2, trivial⟩
  · refine numbersOfElements fun v hv => ?_
    obtain ⟨p, hp, rfl⟩ := List.mem_map.mp hv
    obtain ⟨-, -, hfirst, hlast⟩ := h.peers p hp
    exact ⟨trivial, trivial, numbers_nullableJson _, numbers_nullableJson _, hback _ hfirst,
      hback _ hlast, trivial, trivial⟩
  · refine numbersOfElements fun v hv => ?_
    obtain ⟨s, hs, rfl⟩ := List.mem_map.mp hv
    exact ⟨trivial, trivial, trivial, trivial, trivial, hback _ (h.incoming s hs).2.2, trivial⟩
  · refine numbersOfElements fun v hv => ?_
    obtain ⟨o, ho, rfl⟩ := List.mem_map.mp hv
    exact ⟨trivial, trivial, hback _ (h.outgoing o ho).2, trivial, trivial⟩
  · refine numbersOfElements fun v hv => ?_
    obtain ⟨c, -, rfl⟩ := List.mem_map.mp hv
    exact ⟨trivial, trivial, trivial, trivial⟩
  · refine numbersOfElements fun v hv => ?_
    obtain ⟨a, -, rfl⟩ := List.mem_map.mp hv
    exact ⟨trivial, trivial, trivial⟩

theorem parseAndValidate_serializePortable [DecidableEq Num] (hP : P.Lawful)
    {input : ExportInput Num} (h : input.toValidatedKeyring.WellTyped P)
    (hexported : P.isInteger input.exportedAt)
    (hfits : (serializePortable P (buildPortable P input)).length ≤ maxImportBytes) :
    parseAndValidate P (serializePortable P (buildPortable P input)) =
      .ok input.toValidatedKeyring := by
  unfold parseAndValidate
  rw [if_neg (by omega), serializePortable,
    Json.parse_stringify (numbers_buildPortable hP h hexported)]
  exact validate_buildPortable h

/-- A check that is passed where its input is valid, throws a `TypeError` where it crashes, and
is refused with an error of the keyring elsewhere. -/
structure Judged {α : Type} (r : Except Thrown α) (valid crash : Prop) (good : α → Prop) : Prop where
  passes : valid → ∃ a, r = .ok a ∧ good a
  crashes : crash → ∃ m, r = .error (.typeError m)
  refused : ¬ valid → ¬ crash → ∃ m, r = .error (.e2e .keyring m)

namespace Judged

variable {α β : Type} {r : Except Thrown α} {valid crash valid' crash' : Prop} {good : α → Prop}
  {good' : β → Prop} {k : α → Except Thrown β}

theorem congr (h : Judged r valid crash good) (hvalid : valid' ↔ valid) (hcrash : crash' ↔ crash) :
    Judged r valid' crash' good := by
  rwa [hvalid, hcrash]

/-- A check, then one of what it gave. -/
theorem bind (h : Judged r valid crash good) (hk : ∀ a, good a → Judged (k a) valid' crash' good') :
    Judged (r >>= k) (valid ∧ valid') (crash ∨ valid ∧ crash') good' := by
  refine ⟨fun hv => ?_, fun hc => ?_, fun hv hc => ?_⟩
  · obtain ⟨a, rfl, ha⟩ := h.passes hv.1
    exact (hk a ha).passes hv.2
  · obtain hc | ⟨hv, hc⟩ := hc
    · obtain ⟨m, rfl⟩ := h.crashes hc
      exact ⟨m, rfl⟩
    · obtain ⟨a, rfl, ha⟩ := h.passes hv
      exact (hk a ha).crashes hc
  · by_cases hvalid : valid
    · obtain ⟨a, rfl, ha⟩ := h.passes hvalid
      exact (hk a ha).refused (fun hv' => hv ⟨hvalid, hv'⟩) fun hc' => hc (Or.inr ⟨hvalid, hc'⟩)
    · obtain ⟨m, rfl⟩ := h.refused hvalid fun hc' => hc (Or.inl hc')
      exact ⟨m, rfl⟩

theorem pure {a : α} (h : good a) : Judged (.ok a) True False good :=
  ⟨fun _ => ⟨a, rfl, h⟩, False.elim, fun hv => absurd trivial hv⟩

/-- A check that does not crash. -/
theorem of_cases (hvalid : valid → ∃ a, r = .ok a ∧ good a)
    (hrefused : ¬ valid → ∃ m, r = .error (.e2e .keyring m)) : Judged r valid False good :=
  ⟨hvalid, False.elim, fun hv _ => hrefused hv⟩

end Judged

def isHexField (len : Nat) : Option (Json Num) → Bool
  | some (.str s) => isHex s && s.length = len * 2
  | _ => false

def isStr : Option (Json Num) → Bool
  | some (.str _) => true
  | _ => false

def isNullableStr : Option (Json Num) → Bool
  | none | some .null | some (.str _) => true
  | _ => false

def isInt (P : Platform Num) : Option (Json Num) → Bool
  | some (.num n) => P.isInteger n
  | _ => false

def isIdentity (P : Platform Num) (v : Json Num) : Bool :=
  isHexField 32 (v.member (units "pubkey")) && isHexField 32 (v.member (units "privkey")) &&
    isHexField 16 (v.member (units "fingerprint")) && isInt P (v.member (units "createdAt"))

def isPeer (P : Platform Num) (v : Json Num) : Bool :=
  isHexField 16 (v.member (units "fingerprint")) && isHexField 32 (v.member (units "pubkey")) &&
    isNullableStr (v.member (units "lastHandle")) && isNullableStr (v.member (units "lastNick")) &&
    isInt P (v.member (units "firstSeen")) && isInt P (v.member (units "lastSeen")) &&
    isStr (v.member (units "globalStatus"))

def isIncoming (P : Platform Num) (v : Json Num) : Bool :=
  isStr (v.member (units "handle")) && isStr (v.member (units "channel")) &&
    isHexField 16 (v.member (units "fingerprint")) && isHexField 32 (v.member (units "sk")) &&
    isStr (v.member (units "status")) && isInt P (v.member (units "createdAt"))

def isOutgoing (P : Platform Num) (v : Json Num) : Bool :=
  isStr (v.member (units "channel")) && isHexField 32 (v.member (units "sk")) &&
    isInt P (v.member (units "createdAt"))

def isChannel (v : Json Num) : Bool :=
  isStr (v.member (units "channel")) && isStr (v.member (units "mode"))

def isAutotrust (v : Json Num) : Bool :=
  isStr (v.member (units "scope")) && isStr (v.member (units "handlePattern"))

theorem length_unhex (s : CodeUnits) : (unhex s).length = s.length / 2 := by
  induction s using unhex.induct with
  | case1 a b s ih =>
    rw [unhex, List.length_cons, ih, List.length_cons, List.length_cons]
    omega
  | case2 s hs =>
    match s, hs with
    | [], _ => rfl
    | [a], _ => simp [unhex]
    | a :: b :: s, hs => exact absurd rfl (hs a b s)

theorem judged_parseHex (field : String) (v : Option (Json Num)) (len : Nat) :
    Judged (parseHex field v len) (isHexField len v) False (·.length = len) := by
  cases v with
  | none => exact .of_cases (fun h => (by cases h)) fun _ => ⟨_, rfl⟩
  | some v =>
    cases v with
    | str s =>
      unfold parseHex isHexField
      dsimp only
      split
      · next hhex =>
        split
        · next hlen => exact .of_cases (by simp [hlen]) fun _ => ⟨_, rfl⟩
        · next hlen =>
          refine .of_cases (fun _ => ⟨_, rfl, ?_⟩) fun h => absurd h (by simpa [hhex] using hlen)
          rw [length_unhex, not_not.mp hlen]
          omega
      · next hhex => exact .of_cases (by simp [hhex]) fun _ => ⟨_, rfl⟩
    | _ => exact .of_cases (fun h => (by cases h)) fun _ => ⟨_, rfl⟩

theorem judged_strField (field : String) (v : Option (Json Num)) :
    Judged (strField field v) (isStr v) False fun _ => True := by
  rcases v with _ | v
  · exact .of_cases (fun h => (by cases h)) fun _ => ⟨_, rfl⟩
  · cases v with
    | str s => exact .of_cases (fun _ => ⟨_, rfl, trivial⟩) fun h => absurd rfl h
    | _ => exact .of_cases (fun h => (by cases h)) fun _ => ⟨_, rfl⟩

theorem judged_nullableStr (field : String) (v : Option (Json Num)) :
    Judged (nullableStr field v) (isNullableStr v) False fun _ => True := by
  rcases v with _ | v
  · exact .of_cases (fun _ => ⟨_, rfl, trivial⟩) fun h => absurd rfl h
  · cases v with
    | str | null => exact .of_cases (fun _ => ⟨_, rfl, trivial⟩) fun h => absurd rfl h
    | _ => exact .of_cases (fun h => (by cases h)) fun _ => ⟨_, rfl⟩

theorem judged_intField (field : String) (v : Option (Json Num)) :
    Judged (intField P field v) (isInt P v) False fun n => P.isInteger n := by
  rcases v with _ | v
  · exact .of_cases (fun h => (by cases h)) fun _ => ⟨_, rfl⟩
  · cases v with
    | num n =>
      refine .of_cases (fun h => ⟨n, if_pos h, h⟩) fun h => ⟨_, if_neg h⟩
    | _ => exact .of_cases (fun h => (by cases h)) fun _ => ⟨_, rfl⟩

/-- A property of a record that is not null, and what is made of it. -/
theorem Judged.read {α β : Type} {record : Json Num} (hrecord : record.isNull = false)
    {name : String} {check : Option (Json Num) → Except Thrown α} {valid valid' : Prop}
    {good : α → Prop} {good' : β → Prop} {k : α → Except Thrown β}
    (h : Judged (check (record.member (units name))) valid False good)
    (hk : ∀ a, good a → Judged (k a) valid' False good') :
    Judged (Portable.read record name >>= fun v => check v >>= k) (valid ∧ valid') False good' := by
  have hread : Portable.read record name = .ok (record.member (units name)) :=
    if_neg (by simp [hrecord])
  rw [read_ok hread]
  exact (h.bind hk).congr Iff.rfl (by simp)

theorem judged_parseIdentity {v : Json Num} (hv : v.isNull = false) :
    Judged (parseIdentity P v) (isIdentity P v) False (·.WellTyped P) := by
  refine Judged.congr (.read hv (judged_parseHex _ _ _) fun pubkey hpub =>
    .read hv (judged_parseHex _ _ _) fun privkey hpriv =>
    .read hv (judged_parseHex _ _ _) fun fingerprint hfp =>
    .read hv (judged_intField _ _) fun createdAt hcreated =>
    .pure ⟨hpub, hpriv, hfp, hcreated⟩) ?_ Iff.rfl
  simp only [isIdentity, Bool.and_eq_true, and_true, and_assoc]

theorem judged_parsePeer (i : Nat) {v : Json Num} (hv : v.isNull = false) :
    Judged (parsePeer P i v) (isPeer P v) False (·.WellTyped P) := by
  refine Judged.congr (.read hv (judged_parseHex _ _ _) fun fingerprint hfp =>
    .read hv (judged_parseHex _ _ _) fun pubkey hpub =>
    .read hv (judged_nullableStr _ _) fun lastHandle _ =>
    .read hv (judged_nullableStr _ _) fun lastNick _ =>
    .read hv (judged_intField _ _) fun firstSeen hfirst =>
    .read hv (judged_intField _ _) fun lastSeen hlast =>
    .read hv (judged_strField _ _) fun status _ => .pure ⟨hfp, hpub, hfirst, hlast⟩) ?_ Iff.rfl
  simp only [isPeer, Bool.and_eq_true, and_true, and_assoc]

theorem judged_parseIncoming (i : Nat) {v : Json Num} (hv : v.isNull = false) :
    Judged (parseIncoming P i v) (isIncoming P v) False (·.WellTyped P) := by
  refine Judged.congr (.read hv (judged_strField _ _) fun handle _ =>
    .read hv (judged_strField _ _) fun channel _ =>
    .read hv (judged_parseHex _ _ _) fun fingerprint hfp =>
    .read hv (judged_parseHex _ _ _) fun sk hsk =>
    .read hv (judged_strField _ _) fun status _ =>
    .read hv (judged_intField _ _) fun createdAt hcreated => .pure ⟨hfp, hsk, hcreated⟩) ?_ Iff.rfl
  simp only [isIncoming, Bool.and_eq_true, and_true, and_assoc]

/-- A property of a record that is not null, taken as it is. -/
theorem Judged.plain {β : Type} {record : Json Num} (hrecord : record.isNull = false)
    {name : String} {valid : Prop} {good : β → Prop} {k : Option (Json Num) → Except Thrown β}
    (h : ∀ v, Judged (k v) valid False good) :
    Judged (Portable.read record name >>= k) valid False good := by
  have hread : Portable.read record name = .ok (record.member (units name)) :=
    if_neg (by simp [hrecord])
  rw [read_ok hread]
  exact h _

theorem judged_parseOutgoing (i : Nat) {v : Json Num} (hv : v.isNull = false) :
    Judged (parseOutgoing P i v) (isOutgoing P v) False (·.WellTyped P) := by
  refine Judged.congr (.read hv (judged_strField _ _) fun channel _ =>
    .read hv (judged_parseHex _ _ _) fun sk hsk =>
    .read hv (judged_intField _ _) fun createdAt hcreated =>
    .plain hv fun pendingRotation => .pure ⟨hsk, hcreated⟩) ?_ Iff.rfl
  simp only [isOutgoing, Bool.and_eq_true, and_true, and_assoc]

theorem judged_parseChannel (i : Nat) {v : Json Num} (hv : v.isNull = false) :
    Judged (parseChannel i v) (isChannel v) False fun _ => True := by
  refine Judged.congr (.read hv (judged_strField _ _) fun channel _ =>
    .plain hv fun enabled => .read hv (judged_strField _ _) fun mode _ => .pure trivial) ?_ Iff.rfl
  simp only [isChannel, Bool.and_eq_true, and_true]

theorem judged_parseAutotrust (i : Nat) {v : Json Num} (hv : v.isNull = false) :
    Judged (parseAutotrust i v) (isAutotrust v) False fun _ => True := by
  refine Judged.congr (.read hv (judged_strField _ _) fun scope _ =>
    .read hv (judged_strField _ _) fun handlePattern _ => .pure trivial) ?_ Iff.rfl
  simp only [isAutotrust, Bool.and_eq_true, and_true]

/-- The elements that do not have the shape. -/
def faulty (shape : Json Num → Bool) (vs : List (Json Num)) : List (Json Num) := vs.filter (!shape ·)

/-- An array is judged by the first element that does not have the shape. -/
theorem judged_mapFrom {α : Type} {f : Nat → Json Num → Except Thrown α}
    (shape : Json Num → Bool) {good : α → Prop} (hnull : shape .null = false)
    (hcrash : ∀ i, ∃ m, f i .null = .error (.typeError m))
    (h : ∀ i v, v.isNull = false → Judged (f i v) (shape v) False good) (i : Nat)
    (vs : List (Json Num)) :
    Judged (mapFrom f i vs) (faulty shape vs = []) ((faulty shape vs).head? = some .null)
      fun as => ∀ a ∈ as, good a := by
  have hone (i : Nat) (v : Json Num) : Judged (f i v) (shape v) (v = .null) good := by
    cases v with
    | null =>
      exact ⟨fun hv => (by rw [hnull] at hv; cases hv), fun _ => hcrash i,
        fun _ hv => absurd rfl hv⟩
    | _ => exact (h i _ rfl).congr Iff.rfl (iff_of_false (fun hv => by cases hv) id)
  induction vs generalizing i with
  | nil => exact (Judged.pure fun a ha => by cases ha).congr (iff_of_true rfl trivial) (by simp [faulty])
  | cons v vs ih =>
    have hall (a : α) (ha : good a) (as : List α) (has : ∀ a ∈ as, good a) :
        Judged (pure (a :: as)) True False fun as => ∀ a ∈ as, good a := by
      refine .pure fun b hb => ?_
      obtain rfl | hb := List.mem_cons.mp hb
      · exact ha
      · exact has b hb
    refine ((hone i v).bind fun a ha => (ih (i + 1)).bind (hall a ha)).congr ?_ ?_
    · by_cases hv : shape v <;> simp [faulty, hv]
    · by_cases hv : shape v
      · have hne : v ≠ .null := by rintro rfl; rw [hnull] at hv; cases hv
        simp [faulty, hv, hne]
      · simp [faulty, hv]

def elements (doc : Json Num) (field : String) : List (Json Num) :=
  match doc.member (units field) with
  | some (.arr vs) => vs
  | _ => []

def isArray (doc : Json Num) (field : String) : Bool :=
  match doc.member (units field) with
  | some (.arr _) => true
  | _ => false

def hasArrays (doc : Json Num) : Bool :=
  isArray doc "peers" && isArray doc "incomingSessions" && isArray doc "outgoingSessions" &&
    isArray doc "channels" && isArray doc "autotrust"

/-- The records of a document that do not have the shape of their array, in the order they are
looked at. -/
def faults (P : Platform Num) (doc : Json Num) : List (Json Num) :=
  faulty (isPeer P) (elements doc "peers") ++
    (faulty (isIncoming P) (elements doc "incomingSessions") ++
      (faulty (isOutgoing P) (elements doc "outgoingSessions") ++
        (faulty isChannel (elements doc "channels") ++
          faulty isAutotrust (elements doc "autotrust"))))

def identityOf (doc : Json Num) : Option (Json Num) := doc.member (units "identity")

/-- The document is one of this version, up to its identity's fields and its records. -/
def isFramed [DecidableEq Num] (P : Platform Num) (doc : Json Num) : Bool :=
  isObject (some doc) && isVersion P (doc.member (units "version")) && isObject (identityOf doc) &&
    hasArrays doc

/-- A document whose version has no string, or whose first malformed record is null. -/
def Throws [DecidableEq Num] (P : Platform Num) (doc : Json Num) : Prop :=
  (isObject (some doc) ∧ ¬ isVersion P (doc.member (units "version")) ∧
      shown P (doc.member (units "version")) = none) ∨
    isFramed P doc ∧ isIdentity P ((identityOf doc).getD .null) ∧
      (faults P doc).head? = some .null

/-- A document of this version without a malformed record. -/
def WellFormed [DecidableEq Num] (P : Platform Num) (doc : Json Num) : Prop :=
  isFramed P doc ∧ isIdentity P ((identityOf doc).getD .null) ∧ faults P doc = []

theorem judged_arrayField (doc : Json Num) (field : String) :
    Judged (arrayField doc field) (isArray doc field) False (· = elements doc field) := by
  unfold arrayField isArray elements
  generalize doc.member (units field) = v
  rcases v with _ | v
  · exact .of_cases (fun h => (by cases h)) fun _ => ⟨_, rfl⟩
  · cases v with
    | arr vs => exact .of_cases (fun _ => ⟨vs, rfl, rfl⟩) fun h => absurd rfl h
    | _ => exact .of_cases (fun h => (by cases h)) fun _ => ⟨_, rfl⟩

theorem judged_checkVersion [DecidableEq Num] (version : Option (Json Num)) :
    Judged (checkVersion P version) (isVersion P version)
      (¬ isVersion P version ∧ shown P version = none) fun _ => True := by
  unfold checkVersion
  split
  · next h => exact ⟨fun _ => ⟨(), rfl, trivial⟩, fun hc => absurd h hc.1, fun hv => absurd h hv⟩
  · next h =>
    split
    · next hshown => exact ⟨fun hv => absurd hv h, fun _ => ⟨_, rfl⟩, fun _ hc => absurd ⟨h, hshown⟩ hc⟩
    · next got hshown =>
      exact ⟨fun hv => absurd hv h, fun hc => (by rw [hshown] at hc; cases hc.2), fun _ _ => ⟨_, rfl⟩⟩

theorem judged_require {b : Bool} (message : CodeUnits) :
    Judged (require b message) b False fun _ => b := by
  cases b
  · exact .of_cases (fun h => (by cases h)) fun _ => ⟨_, rfl⟩
  · exact .of_cases (fun _ => ⟨(), rfl, rfl⟩) fun h => absurd rfl h

theorem isNull_of_isObject {v : Option (Json Num)} (h : isObject v) :
    (v.getD .null).isNull = false := by
  rcases v with _ | v
  · cases h
  · cases v with
    | null => cases h
    | _ => rfl

theorem head_append {as bs : List (Json Num)} {v : Json Num} :
    (as ++ bs).head? = some v ↔ as.head? = some v ∨ as = [] ∧ bs.head? = some v := by
  cases as <;> simp

/-- The records, once the document is framed and its identity is read. -/
theorem judged_records (identity : IdentityRow Num) (hidentity : identity.WellTyped P)
    (doc : Json Num) :
    Judged (do
      let peers ← mapFrom (parsePeer P) 0 (elements doc "peers")
      let incoming ← mapFrom (parseIncoming P) 0 (elements doc "incomingSessions")
      let outgoing ← mapFrom (parseOutgoing P) 0 (elements doc "outgoingSessions")
      let channels ← mapFrom parseChannel 0 (elements doc "channels")
      let autotrust ← mapFrom parseAutotrust 0 (elements doc "autotrust")
      return (⟨identity, peers, incoming, outgoing, channels, autotrust⟩ : ValidatedKeyring Num))
      (faults P doc = []) ((faults P doc).head? = some .null) (·.WellTyped P) := by
  refine Judged.congr
    ((judged_mapFrom (isPeer P) rfl (fun _ => ⟨_, rfl⟩)
        (fun i _ hv => judged_parsePeer i hv) 0 _).bind fun peers hpeers =>
      (judged_mapFrom (isIncoming P) rfl (fun _ => ⟨_, rfl⟩)
        (fun i _ hv => judged_parseIncoming i hv) 0 _).bind fun incoming hincoming =>
      (judged_mapFrom (isOutgoing P) rfl (fun _ => ⟨_, rfl⟩)
        (fun i _ hv => judged_parseOutgoing i hv) 0 _).bind fun outgoing houtgoing =>
      (judged_mapFrom isChannel rfl (fun _ => ⟨_, rfl⟩)
        (fun i _ hv => judged_parseChannel i hv) 0 _).bind fun channels _ =>
      (judged_mapFrom isAutotrust rfl (fun _ => ⟨_, rfl⟩)
        (fun i _ hv => judged_parseAutotrust i hv) 0 _).bind fun autotrust _ =>
      .pure ⟨hidentity, hpeers, hincoming, houtgoing⟩) ?_ ?_
  · simp only [faults, List.append_eq_nil_iff, and_true]
  · simp only [faults, head_append, and_false, or_false]

/-- The verdict on a parsed document. -/
theorem judged_validate [DecidableEq Num] (doc : Json Num) :
    Judged (validate P doc) (WellFormed P doc) (Throws P doc) (·.WellTyped P) := by
  refine Judged.congr ((judged_require _).bind fun _ _ => (judged_checkVersion _).bind fun _ _ =>
    (judged_require _).bind fun _ hobject => (judged_arrayField doc "peers").bind fun _ hpeers =>
    (judged_arrayField doc "incomingSessions").bind fun _ hincoming =>
    (judged_arrayField doc "outgoingSessions").bind fun _ houtgoing =>
    (judged_arrayField doc "channels").bind fun _ hchannels =>
    (judged_arrayField doc "autotrust").bind fun _ hautotrust =>
    (judged_parseIdentity (isNull_of_isObject hobject)).bind fun identity hidentity => by
      subst hpeers hincoming houtgoing hchannels hautotrust
      exact judged_records identity hidentity doc) ?_ ?_
  · simp only [WellFormed, isFramed, hasArrays, identityOf, Bool.and_eq_true, and_assoc]
  · simp only [Throws, isFramed, hasArrays, identityOf, Bool.and_eq_true, and_assoc, false_or]
    exact and_or_left.symm

variable [DecidableEq Num]

/-- What an import keeps to on a text: a keyring error and nothing changed, or typed rows. -/
def Inert (P : Platform Num) (json : CodeUnits) : Prop :=
  ((∃ m, parseAndValidate P json = .error (.e2e .keyring m)) ∧
      ∀ (m : Manager Num) (userId networkId : Nat) (now : Num),
        (importKeyring P m userId networkId json now).2 = m) ∨
    ∃ data, parseAndValidate P json = .ok data ∧ data.WellTyped P

/-- A refused document changes nothing, however it was refused. -/
theorem importKeyring_of_error {json : CodeUnits} {e : Thrown}
    (h : parseAndValidate P json = .error e) (m : Manager Num) (userId networkId : Nat) (now : Num) :
    importKeyring P m userId networkId json now = (.failed e.message, m) := by
  unfold importKeyring
  rw [h]

/-- A text of the admitted length that is read as a document which throws. -/
def Crashes (P : Platform Num) (json : CodeUnits) : Prop :=
  json.length ≤ maxImportBytes ∧ ∃ doc, Json.parse P.toArithmetic json = some doc ∧ Throws P doc

theorem judged_parseAndValidate (json : CodeUnits) :
    Judged (parseAndValidate P json)
      (json.length ≤ maxImportBytes ∧
        ∃ doc, Json.parse P.toArithmetic json = some doc ∧ WellFormed P doc)
      (Crashes P json) (·.WellTyped P) := by
  unfold parseAndValidate Crashes
  split
  · next hlong =>
    exact ⟨fun hv => by omega, fun hc => by omega, fun _ _ => ⟨_, rfl⟩⟩
  · next hfits =>
    have hfits : json.length ≤ maxImportBytes := by omega
    cases hparse : Json.parse P.toArithmetic json with
    | none =>
      exact ⟨fun ⟨_, _, h, _⟩ => (by cases h), fun ⟨_, _, h, _⟩ => (by cases h), fun _ _ => ⟨_, rfl⟩⟩
    | some doc => exact (judged_validate doc).congr (by simp [hfits]) (by simp [hfits])

/-- Export and import are inverse on every keyring whose document has the admitted length; and a
text is inert, refused with a keyring error or read to typed rows, exactly where its document does
not throw something else: a version without a string, or null as its first malformed record. -/
theorem export_import (hP : P.Lawful) :
    (∀ input : ExportInput Num, input.toValidatedKeyring.WellTyped P → P.isInteger input.exportedAt →
      (serializePortable P (buildPortable P input)).length ≤ maxImportBytes →
      parseAndValidate P (serializePortable P (buildPortable P input)) =
        .ok input.toValidatedKeyring) ∧
    ∀ json, Inert P json ↔ ¬ Crashes P json := by
  refine ⟨fun input h hexported hfits => parseAndValidate_serializePortable hP h hexported hfits,
    fun json => ⟨fun h hcrash => ?_, fun hcrash => ?_⟩⟩
  · obtain ⟨m, herror⟩ := (judged_parseAndValidate json).crashes hcrash
    obtain ⟨⟨m', h⟩, -⟩ | ⟨data, h, -⟩ := h
    · rw [herror] at h
      cases h
    · rw [herror] at h
      cases h
  · by_cases hvalid : json.length ≤ maxImportBytes ∧
        ∃ doc, Json.parse P.toArithmetic json = some doc ∧ WellFormed P doc
    · exact Or.inr ((judged_parseAndValidate json).passes hvalid)
    · obtain ⟨m, h⟩ := (judged_parseAndValidate json).refused hvalid hcrash
      exact Or.inl ⟨⟨m, h⟩, fun manager userId networkId now => by
        rw [importKeyring_of_error h]⟩

/-- Rationals for numbers. -/
def exactPlatform : Platform ℚ :=
  { Json.exact with
    isInteger := fun q => q.den = 1
    exportVersion := 1
    syntaxError := fun _ => units "Unexpected token" }

theorem exactPlatform_lawful : exactPlatform.Lawful where
  version := by decide
  readsBack q hq := by
    have hden : q.den = 1 := of_decide_eq_true hq
    have hback := Json.exact_readsBack q.num
    rwa [Rat.coe_int_num_of_den_eq_one hden] at hback

def sampleIdentity : IdentityRow ℚ :=
  ⟨List.replicate 32 1, List.replicate 32 2, List.replicate 16 3, 170⟩

/-- One peer without a handle, and one channel. -/
def onePeer : ExportInput ℚ where
  identity := sampleIdentity
  peers := [⟨List.replicate 16 4, List.replicate 32 5, none, some (units "bob"), -1, 2, .revoked⟩]
  incoming := []
  outgoing := []
  channels := [⟨units "#x", true, .autoAccept⟩]
  autotrust := []
  exportedAt := 180

theorem export_import_exact :
    parseAndValidate exactPlatform
        (serializePortable exactPlatform (buildPortable exactPlatform onePeer)) =
        .ok onePeer.toValidatedKeyring ∧
      Inert exactPlatform (units "[") := by
  obtain ⟨hinverse, hinert⟩ := export_import exactPlatform_lawful
  refine ⟨hinverse onePeer ⟨⟨rfl, rfl, rfl, by decide⟩, ?_, fun _ h => (by cases h), fun _ h => (by cases h)⟩
    (by decide) (by decide +kernel), (hinert _).mpr fun ⟨_, _, hparse, _⟩ => by cases hparse⟩
  intro p hp
  obtain rfl := List.mem_singleton.mp hp
  exact ⟨rfl, rfl, by decide, by decide⟩

/-- A document that is well formed but for a peer, which is null. -/
def nullPeer : Json ℚ :=
  .obj [property "version" (.num 1), property "identity" (identityJson sampleIdentity),
    property "peers" (.arr [.null]), property "incomingSessions" (.arr []),
    property "outgoingSessions" (.arr []), property "channels" (.arr []),
    property "autotrust" (.arr [])]

/-- A document whose version has no string. -/
def objectVersion : Json ℚ :=
  .obj [property "version" (.obj [property "toString" (.num 1)])]

theorem null_peer_throws :
    ¬ Inert exactPlatform (Json.stringify Json.exact nullPeer) ∧
      ¬ Inert exactPlatform (Json.stringify Json.exact objectVersion) := by
  have hback (n : ℚ) (hn : n.den = 1) := exactPlatform_lawful.readsBack n (decide_eq_true hn)
  have hcrash {json : CodeUnits} (h : Crashes exactPlatform json) : ¬ Inert exactPlatform json := by
    obtain ⟨m, herror⟩ := (judged_parseAndValidate json).crashes h
    rintro (⟨⟨m', h⟩, -⟩ | ⟨data, h, -⟩) <;> rw [herror] at h <;> cases h
  constructor
  · have hnumbers : nullPeer.Numbers exactPlatform.ReadsBack :=
      ⟨hback 1 rfl, ⟨trivial, trivial, trivial, hback 170 rfl, trivial⟩, ⟨trivial, trivial⟩,
        trivial, trivial, trivial, trivial, trivial⟩
    exact hcrash ⟨by decide +kernel, nullPeer, Json.parse_stringify hnumbers,
      Or.inr ⟨by decide, by decide, rfl⟩⟩
  · have hnumbers : objectVersion.Numbers exactPlatform.ReadsBack :=
      ⟨⟨hback 1 rfl, trivial⟩, trivial⟩
    exact hcrash ⟨by decide +kernel, objectVersion, Json.parse_stringify hnumbers,
      Or.inl ⟨rfl, by decide, rfl⟩⟩

end Lurker.E2e.Portable
