import Lurker.E2e.Handshake
import Mathlib.Data.List.Perm.Basic

/-!
# The handshake codec

A handshake is one line of `key=value` fields, in any order and among others: the parser
takes the line apart at white space, each field at its first `=`, and refuses a key given
twice. What it reads is a matter of the values of the keys it asks for, so it reads back
every message whose channel it does not take apart.
-/

namespace Lurker.E2e

/-- CTCP tag for handshake messages. -/
def ctcpTag : Text := ['R', 'P', 'E', 'E', '2', 'E']

/-- Handshake protocol version (the `v=` field). -/
def protoVersion : Nat := 1

inductive HandshakeKind where
  | keyReq
  | keyRsp
  | rekey
  deriving DecidableEq

inductive HandshakeMsg where
  | keyReq (msg : KeyReq)
  | keyRsp (msg : KeyWrap)
  | rekey (msg : KeyWrap)
  deriving DecidableEq

namespace HandshakeMsg

def kind : HandshakeMsg → HandshakeKind
  | .keyReq _ => .keyReq
  | .keyRsp _ => .keyRsp
  | .rekey _ => .rekey

def channel : HandshakeMsg → Text
  | .keyReq msg => msg.channel
  | .keyRsp msg | .rekey msg => msg.channel

end HandshakeMsg

def HandshakeKind.label : HandshakeKind → Text
  | .keyReq => ['K', 'E', 'Y', 'R', 'E', 'Q']
  | .keyRsp => ['K', 'E', 'Y', 'R', 'S', 'P']
  | .rekey => ['R', 'E', 'K', 'E', 'Y']

/-- Refuse a field of the wrong size. -/
def assertLen (bytes : Bytes) (n : Nat) (field : String) : Except E2eError Unit :=
  if bytes.length = n then .ok ()
  else .error (handshakeError
    (field ++ ": expected " ++ toString n ++ " bytes, got " ++ toString bytes.length))

def field (kv : Text × Text) : Text := kv.1 ++ '=' :: kv.2

/-- A line of fields. -/
def handshakeLine (kind : HandshakeKind) (kvs : List (Text × Text)) : Text :=
  [' '].intercalate (ctcpTag :: kind.label :: kvs.map field)

def encodeKeyReq (req : KeyReq) : Except E2eError Text := do
  assertLen req.pubkey 32 "p"
  assertLen req.ephX25519 32 "e"
  assertLen req.nonce 16 "n"
  assertLen req.sig 64 "s"
  return handshakeLine .keyReq [(['v'], decimal protoVersion), (['c'], req.channel),
    (['p'], Base64.urlEncode req.pubkey), (['e'], Base64.urlEncode req.ephX25519),
    (['n'], Base64.urlEncode req.nonce), (['s'], Base64.urlEncode req.sig)]

/-- A KEYRSP and a REKEY have the same fields. -/
def encodeKeyWrap (kind : HandshakeKind) (msg : KeyWrap) : Except E2eError Text := do
  assertLen msg.pubkey 32 "p"
  assertLen msg.ephemeralPub 32 "e"
  assertLen msg.wrapNonce 24 "wn"
  assertLen msg.nonce 16 "n"
  assertLen msg.sig 64 "s"
  return handshakeLine kind [(['v'], decimal protoVersion), (['c'], msg.channel),
    (['p'], Base64.urlEncode msg.pubkey), (['e'], Base64.urlEncode msg.ephemeralPub),
    (['w', 'n'], Base64.urlEncode msg.wrapNonce), (['w'], Base64.urlEncode msg.wrapCt),
    (['n'], Base64.urlEncode msg.nonce), (['s'], Base64.urlEncode msg.sig)]

def encodeKeyRsp (rsp : KeyWrap) : Except E2eError Text := encodeKeyWrap .keyRsp rsp

def encodeKeyRekey (rk : KeyWrap) : Except E2eError Text := encodeKeyWrap .rekey rk

def HandshakeMsg.encode : HandshakeMsg → Except E2eError Text
  | .keyReq msg => encodeKeyReq msg
  | .keyRsp msg => encodeKeyRsp msg
  | .rekey msg => encodeKeyRekey msg

theorem text_lawfulBEq : LawfulBEq Text := inferInstance

attribute [local instance] text_lawfulBEq

/-- The keys and values of a line's fields. What has no `=` is no field. -/
def entries (fs : List Text) : List (Text × Text) := fs.filterMap (splitFirst '=')

/-- Parse `k=v` fields after those read so far. -/
def parseKv (out : List (Text × Text)) : List Text → Except E2eError (List (Text × Text))
  | [] => .ok out
  | f :: fs =>
    match splitFirst '=' f with
    | none => parseKv out fs
    | some (k, v) =>
      if k ∈ out.map Prod.fst then .error (wireError ("duplicate key: " ++ String.ofList k))
      else parseKv (out ++ [(k, v)]) fs

def b64Decode (s : Text) (field : String) : Except E2eError Bytes :=
  match tryDecodeUrlBase64 s with
  | none => .error (handshakeError (field ++ ": invalid base64"))
  | some raw => .ok raw

def b64Fixed (s : Text) (n : Nat) (field : String) : Except E2eError Bytes := do
  let raw ← b64Decode s field
  assertLen raw n field
  return raw

/-- The value of a key that has to be there. -/
def need (get : Text → Option Text) (key : Text) : Except E2eError Text :=
  match get key with
  | none => .error (handshakeError ("missing field: " ++ String.ofList key))
  | some value => .ok value

def checkVersion (get : Text → Option Text) : Except E2eError Unit :=
  match get ['v'] with
  | none => .error (handshakeError "missing v")
  | some vStr =>
    match parseUintStrict vStr with
    | none => .error (handshakeError ("bad v: " ++ String.ofList vStr))
    | some v =>
      if v ≠ protoVersion then .error (handshakeError ("unsupported version " ++ toString v))
      else .ok ()

def readKeyReq (get : Text → Option Text) : Except E2eError KeyReq := do
  let channel ← need get ['c']
  let pubkey ← b64Fixed (← need get ['p']) 32 "p"
  let ephX25519 ← b64Fixed (← need get ['e']) 32 "e"
  let nonce ← b64Fixed (← need get ['n']) 16 "n"
  let sig ← b64Fixed (← need get ['s']) 64 "s"
  return { channel, pubkey, ephX25519, nonce, sig }

def readKeyWrap (get : Text → Option Text) : Except E2eError KeyWrap := do
  let channel ← need get ['c']
  let pubkey ← b64Fixed (← need get ['p']) 32 "p"
  let ephemeralPub ← b64Fixed (← need get ['e']) 32 "e"
  let wrapNonce ← b64Fixed (← need get ['w', 'n']) 24 "wn"
  let wrapCt ← b64Decode (← need get ['w']) "w"
  let nonce ← b64Fixed (← need get ['n']) 16 "n"
  let sig ← b64Fixed (← need get ['s']) 64 "s"
  return { channel, pubkey, ephemeralPub, wrapNonce, wrapCt, nonce, sig }

/-- Read a message of a kind, given the values of the keys. -/
def readMsg (kind : Text) (get : Text → Option Text) : Except E2eError HandshakeMsg := do
  checkVersion get
  if kind = HandshakeKind.keyReq.label then return .keyReq (← readKeyReq get)
  else if kind = HandshakeKind.keyRsp.label then return .keyRsp (← readKeyWrap get)
  else if kind = HandshakeKind.rekey.label then return .rekey (← readKeyWrap get)
  else .error (handshakeError ("unknown type " ++ String.ofList kind))

/-- Parse a body. Nothing when it is not a handshake message. -/
def parseHandshake (body : Text) : Except E2eError (Option HandshakeMsg) :=
  match fields body with
  | [] => .ok none
  | tag :: rest =>
    if tag ≠ ctcpTag then .ok none
    else
      match rest with
      | [] => .error (handshakeError "missing type")
      | kind :: fs => do
        let kv ← parseKv [] fs
        return some (← readMsg kind fun k => List.lookup k kv)

section Reading

theorem bind_eq_ok {α β : Type} {x : Except E2eError α} {f : α → Except E2eError β} {b : β} :
    x >>= f = .ok b ↔ ∃ a, x = .ok a ∧ f a = .ok b := by
  cases x with
  | error e => exact ⟨fun h => (by cases h), fun ⟨a, h, _⟩ => (by cases h)⟩
  | ok a => exact ⟨fun h => ⟨a, rfl, h⟩, fun ⟨_, ha, h⟩ => Except.ok.inj ha ▸ h⟩

/-- The fields are those with distinct keys. -/
theorem parseKv_eq_ok {out kv : List (Text × Text)} {fs : List Text}
    (hout : (out.map Prod.fst).Nodup) :
    parseKv out fs = .ok kv ↔ kv = out ++ entries fs ∧ ((out ++ entries fs).map Prod.fst).Nodup := by
  induction fs generalizing out with
  | nil =>
    rw [parseKv, entries, List.filterMap_nil, List.append_nil]
    exact ⟨fun h => ⟨(Except.ok.inj h).symm, hout⟩, fun h => h.1 ▸ rfl⟩
  | cons f fs ih =>
    rw [parseKv]
    cases hf : splitFirst '=' f with
    | none =>
      rw [entries, List.filterMap_cons_none hf]
      exact ih hout
    | some kv' =>
      obtain ⟨k, v⟩ := kv'
      have happend : out ++ entries (f :: fs) = out ++ [(k, v)] ++ entries fs := by
        rw [entries, List.filterMap_cons_some hf, List.append_assoc]
        rfl
      dsimp only
      rw [happend]
      split
      · rename_i hdup
        refine ⟨fun h => (by cases h), fun h => absurd hdup ?_⟩
        have hnodup := h.2
        rw [List.append_assoc, List.map_append, List.nodup_append] at hnodup
        exact fun hmem => hnodup.2.2 k hmem k (List.mem_cons_self ..) rfl
      · rename_i hnew
        refine ih ?_
        rw [List.map_append, List.nodup_append]
        refine ⟨hout, List.nodup_singleton k, fun a ha b hb => ?_⟩
        rw [List.mem_singleton.mp hb]
        intro heq
        have hak : a = k := heq
        exact hnew (hak ▸ ha)

theorem lookup_eq_some {kv : List (Text × Text)} (hkv : (kv.map Prod.fst).Nodup) {k v : Text} :
    List.lookup k kv = some v ↔ (k, v) ∈ kv := by
  induction kv with
  | nil => simp
  | cons p kv ih =>
    obtain ⟨k', v'⟩ := p
    obtain ⟨hnew, hkv⟩ := List.nodup_cons.mp hkv
    rw [List.lookup_cons, List.mem_cons, Prod.mk.injEq]
    by_cases hk : k = k'
    · subst hk
      have hnot : (k, v) ∉ kv := fun hmem => hnew (List.mem_map.mpr ⟨(k, v), hmem, rfl⟩)
      simp [hnot, eq_comm]
    · have hbeq : (k == k') = false := beq_eq_false_iff_ne.mpr hk
      rw [hbeq, ← ih hkv]
      simp [hk]

/-- The keys a message of a kind is read from. -/
def readKeys (kind : Text) : List Text :=
  [['v'], ['c'], ['p'], ['e'], ['n'], ['s']] ++
    if kind = HandshakeKind.keyReq.label then [] else [['w', 'n'], ['w']]

theorem readMsg_congr {kind : Text} {get get' : Text → Option Text}
    (h : ∀ k ∈ readKeys kind, get k = get' k) : readMsg kind get = readMsg kind get' := by
  have hv := h ['v'] (by simp [readKeys])
  have hc := h ['c'] (by simp [readKeys])
  have hp := h ['p'] (by simp [readKeys])
  have he := h ['e'] (by simp [readKeys])
  have hn := h ['n'] (by simp [readKeys])
  have hs := h ['s'] (by simp [readKeys])
  have hversion : checkVersion get = checkVersion get' := by
    unfold checkVersion
    rw [hv]
  unfold readMsg
  rw [hversion]
  split
  · have hreq : readKeyReq get = readKeyReq get' := by
      simp only [readKeyReq, need, hc, hp, he, hn, hs]
    rw [hreq]
  · rename_i hkind
    have hwn := h ['w', 'n'] (by simp [readKeys, hkind])
    have hw := h ['w'] (by simp [readKeys, hkind])
    have hwrap : readKeyWrap get = readKeyWrap get' := by
      simp only [readKeyWrap, need, hc, hp, he, hn, hs, hwn, hw]
    rw [hwrap]

/-- A message is accepted just when it is read from fields with distinct keys. -/
theorem parseHandshake_eq_some {body : Text} {m : HandshakeMsg} :
    parseHandshake body = .ok (some m) ↔ ∃ kind fs, fields body = ctcpTag :: kind :: fs ∧
      ((entries fs).map Prod.fst).Nodup ∧
      readMsg kind (fun k => List.lookup k (entries fs)) = .ok m := by
  unfold parseHandshake
  constructor
  · intro h
    split at h
    · cases h
    rename_i tag rest hfields
    split at h
    · cases h
    rename_i htag
    obtain rfl := not_not.mp htag
    split at h
    · cases h
    rename_i kind fs
    obtain ⟨kv, hkv, h⟩ := bind_eq_ok.mp h
    obtain ⟨hentries, hnodup⟩ := (@parseKv_eq_ok [] _ _ List.nodup_nil).mp hkv
    rw [hentries] at h
    obtain ⟨m', hm, h⟩ := bind_eq_ok.mp h
    cases h
    exact ⟨kind, fs, hfields, hnodup, hm⟩
  · rintro ⟨kind, fs, hfields, hnodup, hm⟩
    have hkv : parseKv [] fs = .ok (entries fs) :=
      (@parseKv_eq_ok [] _ _ List.nodup_nil).mpr ⟨rfl, hnodup⟩
    rw [hfields]
    dsimp only
    rw [if_neg (not_not.mpr rfl), bind_eq_ok]
    exact ⟨_, hkv, bind_eq_ok.mpr ⟨m, hm, rfl⟩⟩

theorem need_eq_ok {get : Text → Option Text} {k v : Text} : need get k = .ok v ↔ get k = some v := by
  unfold need
  cases get k with
  | none => exact ⟨fun h => (by cases h), fun h => (by cases h)⟩
  | some v' =>
    exact ⟨fun h => congrArg some (Except.ok.inj h), fun h => congrArg Except.ok (Option.some.inj h)⟩

theorem readKeyReq_channel {get : Text → Option Text} {req : KeyReq} (h : readKeyReq get = .ok req) :
    get ['c'] = some req.channel := by
  unfold readKeyReq at h
  obtain ⟨channel, hc, h⟩ := bind_eq_ok.mp h
  obtain ⟨_, -, h⟩ := bind_eq_ok.mp h
  obtain ⟨pubkey, -, h⟩ := bind_eq_ok.mp h
  obtain ⟨_, -, h⟩ := bind_eq_ok.mp h
  obtain ⟨ephX25519, -, h⟩ := bind_eq_ok.mp h
  obtain ⟨_, -, h⟩ := bind_eq_ok.mp h
  obtain ⟨nonce, -, h⟩ := bind_eq_ok.mp h
  obtain ⟨_, -, h⟩ := bind_eq_ok.mp h
  obtain ⟨sig, -, h⟩ := bind_eq_ok.mp h
  cases h
  exact need_eq_ok.mp hc

theorem readKeyWrap_channel {get : Text → Option Text} {msg : KeyWrap}
    (h : readKeyWrap get = .ok msg) : get ['c'] = some msg.channel := by
  unfold readKeyWrap at h
  obtain ⟨channel, hc, h⟩ := bind_eq_ok.mp h
  obtain ⟨_, -, h⟩ := bind_eq_ok.mp h
  obtain ⟨pubkey, -, h⟩ := bind_eq_ok.mp h
  obtain ⟨_, -, h⟩ := bind_eq_ok.mp h
  obtain ⟨ephemeralPub, -, h⟩ := bind_eq_ok.mp h
  obtain ⟨_, -, h⟩ := bind_eq_ok.mp h
  obtain ⟨wrapNonce, -, h⟩ := bind_eq_ok.mp h
  obtain ⟨_, -, h⟩ := bind_eq_ok.mp h
  obtain ⟨wrapCt, -, h⟩ := bind_eq_ok.mp h
  obtain ⟨_, -, h⟩ := bind_eq_ok.mp h
  obtain ⟨nonce, -, h⟩ := bind_eq_ok.mp h
  obtain ⟨_, -, h⟩ := bind_eq_ok.mp h
  obtain ⟨sig, -, h⟩ := bind_eq_ok.mp h
  cases h
  exact need_eq_ok.mp hc

/-- The channel of what is read is the value of its key. -/
theorem readMsg_channel {kind : Text} {get : Text → Option Text} {m : HandshakeMsg}
    (h : readMsg kind get = .ok m) : get ['c'] = some m.channel := by
  obtain ⟨-, -, h⟩ := bind_eq_ok.mp h
  split at h
  · obtain ⟨req, hreq, h⟩ := bind_eq_ok.mp h
    cases h
    exact readKeyReq_channel hreq
  split at h
  · obtain ⟨msg, hmsg, h⟩ := bind_eq_ok.mp h
    cases h
    exact readKeyWrap_channel hmsg
  split at h
  · obtain ⟨msg, hmsg, h⟩ := bind_eq_ok.mp h
    cases h
    exact readKeyWrap_channel hmsg
  · cases h

/-- A channel that is read has no white space in it. -/
theorem parseHandshake_channel {body : Text} {m : HandshakeMsg}
    (h : parseHandshake body = .ok (some m)) : ∀ c ∈ m.channel, isSpace c = false := by
  obtain ⟨kind, fs, hfields, hnodup, hm⟩ := parseHandshake_eq_some.mp h
  obtain ⟨f, hf, hsplit⟩ := List.mem_filterMap.mp ((lookup_eq_some hnodup).mp (readMsg_channel hm))
  have hword := (of_mem_fields (s := body) (w := f) (hfields ▸ by simp [hf])).2
  unfold splitFirst at hsplit
  split at hsplit
  · obtain ⟨-, hchannel⟩ := Prod.mk.inj (Option.some.inj hsplit)
    rw [← hchannel]
    intro c hc
    exact hword c ((List.dropWhile_subset _) (List.mem_of_mem_tail hc))
  · cases hsplit

end Reading

section ReadBack

theorem assertLen_eq_ok {bytes : Bytes} {n : Nat} (h : bytes.length = n) (field : String) :
    assertLen bytes n field = .ok () := if_pos h

theorem b64Decode_urlEncode (bs : Bytes) (field : String) :
    b64Decode (Base64.urlEncode bs) field = .ok bs := by
  rw [b64Decode, tryDecodeUrlBase64_urlEncode]

theorem b64Fixed_urlEncode {bs : Bytes} {n : Nat} (h : bs.length = n) (field : String) :
    b64Fixed (Base64.urlEncode bs) n field = .ok bs := by
  rw [b64Fixed, b64Decode_urlEncode]
  change (assertLen bs n field >>= fun _ => .ok bs) = .ok bs
  rw [assertLen_eq_ok h]
  rfl

/-- A line of fields without white space comes apart into them. -/
theorem isSpace_of_any {w : Text} (h : w.any isSpace = false) : ∀ c ∈ w, isSpace c = false :=
  fun c hc => Bool.eq_false_iff.mpr (List.any_eq_false.mp h c hc)

theorem fields_handshakeLine (kind : HandshakeKind) {kvs : List (Text × Text)}
    (hkvs : ∀ kv ∈ kvs, ∀ c ∈ field kv, isSpace c = false) :
    fields (handshakeLine kind kvs) = ctcpTag :: kind.label :: kvs.map field := by
  have hne (kv : Text × Text) : field kv ≠ [] := by simp [field]
  have hlabel : ∀ c ∈ kind.label, isSpace c = false :=
    isSpace_of_any (by cases kind <;> decide)
  have hlabelNe : kind.label ≠ [] := by cases kind <;> exact List.cons_ne_nil _ _
  have hjoin : ∀ ws : List Text, (∀ w ∈ ws, w ≠ [] ∧ ∀ c ∈ w, isSpace c = false) →
      fields ([' '].intercalate ws) = ws := by
    intro ws hws
    induction ws with
    | nil => rfl
    | cons w ws ih =>
      obtain ⟨hwne, hw⟩ := hws w List.mem_cons_self
      cases ws with
      | nil =>
        rw [List.intercalate_singleton]
        exact fields_word hw hwne
      | cons v ws =>
        rw [List.intercalate_cons_cons, List.append_assoc, List.singleton_append, fields_cons hw hwne,
          ih fun u hu => hws u (List.mem_cons_of_mem _ hu)]
  refine hjoin _ fun w hw => ?_
  rcases List.mem_cons.mp hw with rfl | hw
  · exact ⟨List.cons_ne_nil _ _, isSpace_of_any (by decide)⟩
  rcases List.mem_cons.mp hw with rfl | hw
  · exact ⟨hlabelNe, hlabel⟩
  · obtain ⟨kv, hkv, rfl⟩ := List.mem_map.mp hw
    exact ⟨hne kv, hkvs kv hkv⟩

theorem entries_field {kvs : List (Text × Text)} (hkvs : ∀ kv ∈ kvs, '=' ∉ kv.1) :
    entries (kvs.map field) = kvs := by
  induction kvs with
  | nil => rfl
  | cons kv kvs ih =>
    have hkv : splitFirst '=' (field kv) = some kv := splitFirst_append (hkvs kv List.mem_cons_self)
    rw [List.map_cons, entries, List.filterMap_cons_some hkv]
    exact congrArg (kv :: ·) (ih fun kv' h => hkvs kv' (List.mem_cons_of_mem _ h))

/-- A line is read by its fields. -/
theorem parseHandshake_line {kind : HandshakeKind} {kvs : List (Text × Text)} {m : HandshakeMsg}
    (hkeys : (kvs.map Prod.fst).Nodup) (hmark : ∀ kv ∈ kvs, '=' ∉ kv.1)
    (hspace : ∀ kv ∈ kvs, ∀ c ∈ field kv, isSpace c = false)
    (hm : readMsg kind.label (fun k => List.lookup k kvs) = .ok m) :
    parseHandshake (handshakeLine kind kvs) = .ok (some m) := by
  refine parseHandshake_eq_some.mpr ⟨_, _, fields_handshakeLine kind hspace, ?_, ?_⟩
  · rw [entries_field hmark]
    exact hkeys
  · rw [entries_field hmark]
    exact hm

theorem isSpace_urlEncode {bs : Bytes} {c : Char} (h : c ∈ Base64.urlEncode bs) :
    isSpace c = false := by
  have hc := Base64.mem_urlEncode h
  rw [Base64.inUrlAlphabet, Bool.or_eq_true, Bool.or_eq_true, decide_eq_true_eq,
    decide_eq_true_eq] at hc
  obtain (hc | rfl) | rfl := hc
  · exact isSpace_of_inAlphabet (by rw [Base64.inAlphabet, hc]; rfl)
  · decide
  · decide

/-- A field without white space in its key and its value has none. -/
theorem isSpace_field {k v : Text} (hkey : k.any isSpace = false)
    (hvalue : ∀ c ∈ v, isSpace c = false) : ∀ c ∈ field (k, v), isSpace c = false := by
  intro c hc
  rcases List.mem_append.mp hc with hc | hc
  · exact isSpace_of_any hkey c hc
  rcases List.mem_cons.mp hc with rfl | hc
  · decide
  · exact hvalue c hc

theorem isSpace_version : ∀ c ∈ decimal protoVersion, isSpace c = false :=
  fun _ hc => isSpace_of_isDigit (isDigit_decimal hc)

theorem checkVersion_eq_ok {get : Text → Option Text} (h : get ['v'] = some (decimal protoVersion)) :
    checkVersion get = .ok () := by
  rw [checkVersion, h]
  dsimp only
  rw [parseUintStrict_decimal (by decide)]
  rfl

theorem encodeKeyReq_back {req : KeyReq} (hp : req.pubkey.length = 32)
    (he : req.ephX25519.length = 32) (hn : req.nonce.length = 16) (hs : req.sig.length = 64)
    (hc : ∀ c ∈ req.channel, isSpace c = false) :
    ∃ line, encodeKeyReq req = .ok line ∧ parseHandshake line = .ok (some (.keyReq req)) := by
  refine ⟨_, ?_, @parseHandshake_line .keyReq [(['v'], decimal protoVersion),
    (['c'], req.channel), (['p'], Base64.urlEncode req.pubkey),
    (['e'], Base64.urlEncode req.ephX25519), (['n'], Base64.urlEncode req.nonce),
    (['s'], Base64.urlEncode req.sig)] _ ?_ ?_ ?_ ?_⟩
  · rw [encodeKeyReq, assertLen_eq_ok hp, assertLen_eq_ok he, assertLen_eq_ok hn,
      assertLen_eq_ok hs]
    rfl
  · simp
  · simp
  · simp only [List.mem_cons, List.not_mem_nil, or_false, forall_eq_or_imp, forall_eq]
    exact ⟨isSpace_field (by decide) isSpace_version, isSpace_field (by decide) hc,
      isSpace_field (by decide) fun _ => isSpace_urlEncode,
      isSpace_field (by decide) fun _ => isSpace_urlEncode,
      isSpace_field (by decide) fun _ => isSpace_urlEncode,
      isSpace_field (by decide) fun _ => isSpace_urlEncode⟩
  · refine bind_eq_ok.mpr ⟨(), checkVersion_eq_ok rfl, ?_⟩
    rw [if_pos rfl]
    refine bind_eq_ok.mpr ⟨req, ?_, rfl⟩
    refine bind_eq_ok.mpr ⟨_, need_eq_ok.mpr rfl, ?_⟩
    refine bind_eq_ok.mpr ⟨_, need_eq_ok.mpr rfl, bind_eq_ok.mpr ⟨_, b64Fixed_urlEncode hp _, ?_⟩⟩
    refine bind_eq_ok.mpr ⟨_, need_eq_ok.mpr rfl, bind_eq_ok.mpr ⟨_, b64Fixed_urlEncode he _, ?_⟩⟩
    refine bind_eq_ok.mpr ⟨_, need_eq_ok.mpr rfl, bind_eq_ok.mpr ⟨_, b64Fixed_urlEncode hn _, ?_⟩⟩
    exact bind_eq_ok.mpr ⟨_, need_eq_ok.mpr rfl, bind_eq_ok.mpr ⟨_, b64Fixed_urlEncode hs _, rfl⟩⟩

theorem encodeKeyWrap_back {msg : KeyWrap} {kind : HandshakeKind} {m : HandshakeMsg}
    (hp : msg.pubkey.length = 32) (he : msg.ephemeralPub.length = 32)
    (hwn : msg.wrapNonce.length = 24) (hn : msg.nonce.length = 16) (hs : msg.sig.length = 64)
    (hc : ∀ c ∈ msg.channel, isSpace c = false)
    (hm : ∀ get, checkVersion get = .ok () → readKeyWrap get = .ok msg →
      readMsg kind.label get = .ok m) :
    ∃ line, encodeKeyWrap kind msg = .ok line ∧ parseHandshake line = .ok (some m) := by
  refine ⟨_, ?_, @parseHandshake_line kind [(['v'], decimal protoVersion),
    (['c'], msg.channel), (['p'], Base64.urlEncode msg.pubkey),
    (['e'], Base64.urlEncode msg.ephemeralPub), (['w', 'n'], Base64.urlEncode msg.wrapNonce),
    (['w'], Base64.urlEncode msg.wrapCt), (['n'], Base64.urlEncode msg.nonce),
    (['s'], Base64.urlEncode msg.sig)] _ ?_ ?_ ?_ ?_⟩
  · rw [encodeKeyWrap, assertLen_eq_ok hp, assertLen_eq_ok he, assertLen_eq_ok hwn,
      assertLen_eq_ok hn, assertLen_eq_ok hs]
    rfl
  · simp
  · simp
  · simp only [List.mem_cons, List.not_mem_nil, or_false, forall_eq_or_imp, forall_eq]
    exact ⟨isSpace_field (by decide) isSpace_version, isSpace_field (by decide) hc,
      isSpace_field (by decide) fun _ => isSpace_urlEncode,
      isSpace_field (by decide) fun _ => isSpace_urlEncode,
      isSpace_field (by decide) fun _ => isSpace_urlEncode,
      isSpace_field (by decide) fun _ => isSpace_urlEncode,
      isSpace_field (by decide) fun _ => isSpace_urlEncode,
      isSpace_field (by decide) fun _ => isSpace_urlEncode⟩
  · refine hm _ (checkVersion_eq_ok rfl) ?_
    refine bind_eq_ok.mpr ⟨_, need_eq_ok.mpr rfl, ?_⟩
    refine bind_eq_ok.mpr ⟨_, need_eq_ok.mpr rfl, bind_eq_ok.mpr ⟨_, b64Fixed_urlEncode hp _, ?_⟩⟩
    refine bind_eq_ok.mpr ⟨_, need_eq_ok.mpr rfl, bind_eq_ok.mpr ⟨_, b64Fixed_urlEncode he _, ?_⟩⟩
    refine bind_eq_ok.mpr ⟨_, need_eq_ok.mpr rfl, bind_eq_ok.mpr ⟨_, b64Fixed_urlEncode hwn _, ?_⟩⟩
    refine bind_eq_ok.mpr ⟨_, need_eq_ok.mpr rfl, bind_eq_ok.mpr ⟨_, b64Decode_urlEncode _ _, ?_⟩⟩
    refine bind_eq_ok.mpr ⟨_, need_eq_ok.mpr rfl, bind_eq_ok.mpr ⟨_, b64Fixed_urlEncode hn _, ?_⟩⟩
    exact bind_eq_ok.mpr ⟨_, need_eq_ok.mpr rfl, bind_eq_ok.mpr ⟨_, b64Fixed_urlEncode hs _, rfl⟩⟩

end ReadBack

namespace HandshakeMsg

/-- The byte fields of a message have their lengths. -/
def Sized : HandshakeMsg → Prop
  | .keyReq req => req.pubkey.length = 32 ∧ req.ephX25519.length = 32 ∧ req.nonce.length = 16 ∧
      req.sig.length = 64
  | .keyRsp msg | .rekey msg => msg.pubkey.length = 32 ∧ msg.ephemeralPub.length = 32 ∧
      msg.wrapNonce.length = 24 ∧ msg.wrapCt ≠ [] ∧ msg.nonce.length = 16 ∧ msg.sig.length = 64

theorem encode_back {m : HandshakeMsg} (hm : m.Sized) (hc : ∀ c ∈ m.channel, isSpace c = false) :
    ∃ line, m.encode = .ok line ∧ parseHandshake line = .ok (some m) := by
  cases m with
  | keyReq req =>
    obtain ⟨hp, he, hn, hs⟩ := hm
    exact encodeKeyReq_back hp he hn hs hc
  | keyRsp msg =>
    obtain ⟨hp, he, hwn, -, hn, hs⟩ := hm
    refine encodeKeyWrap_back hp he hwn hn hs hc fun get hversion hmsg => ?_
    refine bind_eq_ok.mpr ⟨(), hversion, ?_⟩
    rw [if_neg (by decide), if_pos rfl]
    exact bind_eq_ok.mpr ⟨msg, hmsg, rfl⟩
  | rekey msg =>
    obtain ⟨hp, he, hwn, -, hn, hs⟩ := hm
    refine encodeKeyWrap_back hp he hwn hn hs hc fun get hversion hmsg => ?_
    refine bind_eq_ok.mpr ⟨(), hversion, ?_⟩
    rw [if_neg (by decide), if_neg (by decide), if_pos rfl]
    exact bind_eq_ok.mpr ⟨msg, hmsg, rfl⟩

end HandshakeMsg

/-- A name a server can admit. -/
def Admitted (channel : Text) : Prop :=
  channel ≠ [] ∧
    ∀ c ∈ channel, c ∉ [' ', ',', Char.ofNat 0, Char.ofNat 13, Char.ofNat 10, Char.ofNat 7]

/-- The same fields, in another order, among unknown ones or between other runs of spaces; no
key stands twice. -/
def SameFields (body body' : Text) : Prop :=
  ∃ tag kind fs fs', fields body = tag :: kind :: fs ∧ fields body' = tag :: kind :: fs' ∧
    ((entries fs').map Prod.fst).Nodup ∧
    ((entries fs').filter fun kv => kv.1 ∈ readKeys kind).Perm
      ((entries fs).filter fun kv => kv.1 ∈ readKeys kind)

/-- A key stands twice among the fields. -/
def RepeatsKey (body : Text) : Prop :=
  ∃ tag kind fs, fields body = tag :: kind :: fs ∧ ¬((entries fs).map Prod.fst).Nodup

theorem parseHandshake_sameFields {body body' : Text} {m : HandshakeMsg}
    (h : parseHandshake body = .ok (some m)) (hsame : SameFields body body') :
    parseHandshake body' = .ok (some m) := by
  obtain ⟨kind, fs, hfields, hnodup, hm⟩ := parseHandshake_eq_some.mp h
  obtain ⟨tag', kind', fs₁, fs', hbody, hbody', hnodup', hperm⟩ := hsame
  rw [hfields] at hbody
  obtain ⟨rfl, hrest⟩ := List.cons.inj hbody
  obtain ⟨rfl, rfl⟩ := List.cons.inj hrest
  refine parseHandshake_eq_some.mpr ⟨kind, fs', hbody', hnodup', ?_⟩
  rw [← hm]
  refine readMsg_congr fun k hk => Option.ext fun v => ?_
  have hmem := hperm.mem_iff (a := (k, v))
  simp only [List.mem_filter, hk, decide_true, and_true] at hmem
  rw [lookup_eq_some hnodup, lookup_eq_some hnodup', hmem]

/-- The codec reads back every message on a channel that has no white space in its name, and
no other; it reads fields in any order and among others, and refuses a key given twice. -/
theorem handshake_codec (m : HandshakeMsg) :
    (m.Sized → Admitted m.channel →
      ((∃ line, m.encode = .ok line ∧ parseHandshake line = .ok (some m)) ↔
        ∀ c ∈ m.channel, isSpace c = false)) ∧
    (∀ body body', parseHandshake body = .ok (some m) → SameFields body body' →
      parseHandshake body' = .ok (some m)) ∧
    ∀ body, RepeatsKey body → parseHandshake body ≠ .ok (some m) := by
  refine ⟨fun hm _ => ⟨?_, HandshakeMsg.encode_back hm⟩, fun _ _ => parseHandshake_sameFields,
    fun body hrepeats h => ?_⟩
  · rintro ⟨line, -, hline⟩
    exact parseHandshake_channel hline
  · obtain ⟨kind, fs, hfields, hnodup, -⟩ := parseHandshake_eq_some.mp h
    obtain ⟨tag', kind', fs', hfields', hdup⟩ := hrepeats
    rw [hfields] at hfields'
    obtain ⟨-, hrest⟩ := List.cons.inj hfields'
    exact hdup ((List.cons.inj hrest).2 ▸ hnodup)

/-- A request on a channel, its bytes all zero. -/
def blankReq (channel : Text) : KeyReq where
  channel := channel
  pubkey := List.replicate 32 0
  ephX25519 := List.replicate 32 0
  nonce := List.replicate 16 0
  sig := List.replicate 64 0

theorem handshake_codec_keyreq :
    ∃ line, (HandshakeMsg.keyReq (blankReq ['#', 'é'])).encode = .ok line ∧
      parseHandshake line = .ok (some (.keyReq (blankReq ['#', 'é']))) :=
  ((handshake_codec (.keyReq (blankReq ['#', 'é']))).1 (by simp [HandshakeMsg.Sized, blankReq])
    ⟨by decide, by simp [HandshakeMsg.channel, blankReq]⟩).mpr (isSpace_of_any (by decide))

/-- A request on a channel with a no-break space in its name is read as one on another. -/
theorem no_break_space_lost :
    (HandshakeMsg.keyReq (blankReq ['#', 'a', Char.ofNat 0xa0, 'b'])).Sized ∧
      Admitted (HandshakeMsg.keyReq (blankReq ['#', 'a', Char.ofNat 0xa0, 'b'])).channel ∧
      ∃ line, (HandshakeMsg.keyReq (blankReq ['#', 'a', Char.ofNat 0xa0, 'b'])).encode = .ok line ∧
        parseHandshake line = .ok (some (.keyReq (blankReq ['#', 'a']))) := by
  refine ⟨by simp [HandshakeMsg.Sized, blankReq],
    ⟨by decide, by simp [HandshakeMsg.channel, blankReq]⟩, _, rfl, ?_⟩
  decide +kernel

end Lurker.E2e
