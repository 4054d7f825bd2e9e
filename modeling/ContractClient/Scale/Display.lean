/-
How codecs are shown.

A codec is shown as the expression that builds it. A reference shows what it
names only after it was followed once; before that it is unbound. Which
references of a codec were followed is kept beside the codec, as one flag for
each of its visible references in reading order. References inside declared
types are not visible, because a declared type shows its name alone.
-/
import ContractClient.Scale.Decode
import ContractClient.Scale.Encode

set_option autoImplicit false

namespace ContractClient.Codec

mutual

/-- The number of visible references. -/
def visibleRefs : Codec → Nat
  | .seq item => visibleRefs item
  | .array item _ => visibleRefs item
  | .tuple codecs => visibleRefsOfAll codecs
  | .option inner => visibleRefs inner
  | .result ok err => visibleRefs ok + visibleRefs err
  | .ref _ => 1
  | _ => 0

/-- The number of visible references of several codecs. -/
def visibleRefsOfAll : List Codec → Nat
  | [] => 0
  | c :: codecs => visibleRefs c + visibleRefsOfAll codecs

end

/-- Flags for references none of which was followed. -/
def unfollowed (c : Codec) : List Bool :=
  List.replicate c.visibleRefs false

/-- Flags for references that were followed by one or the other. -/
def mergeFlags (a b : List Bool) : List Bool :=
  List.zipWith (· || ·) a b

/-- How a declared type is shown. -/
def declaredText : Codec → String
  | .struct shape _ => s!"Struct({shape.name})"
  | .enum base _ => s!"Enum({base})"
  | _ => ""

mutual

/-- The expression of a codec whose visible references have the given flags. -/
def showWith (env : Environment) : Codec → List Bool → String
  | .bool, _ => "BOOL"
  | .int size signed, _ => intName size signed
  | .compact bound, _ => compactName bound
  | .str, _ => "STR"
  | .char, _ => "CHAR"
  | .bytes, _ => "BYTES"
  | .fixedBytes length newtype, _ =>
    match newtype with
    | some kind => s!"FixedBytes({length}, {kind.name})"
    | none => s!"FixedBytes({length})"
  | .seq item, flags => s!"Seq({showWith env item flags})"
  | .array item length, flags => s!"Array({showWith env item flags}, {length})"
  | .tuple [], _ => "UNIT"
  | .tuple codecs, flags => "Tuple((" ++ ", ".intercalate (showAll env codecs flags) ++ ",))"
  | .option inner, flags => s!"Option({showWith env inner flags})"
  | .result ok err, flags =>
    s!"Result({showWith env ok flags}, {showWith env err (flags.drop ok.visibleRefs)})"
  | .struct shape _, _ => s!"Struct({shape.name})"
  | .enum base _, _ => s!"Enum({base})"
  | .ref name, flags =>
    match flags.headD false, env.codec? name with
    | true, some c => s!"Ref({declaredText c})"
    | _, _ => "Ref(<unbound>)"

/-- The expressions of several codecs. -/
def showAll (env : Environment) : List Codec → List Bool → List String
  | [], _ => []
  | c :: codecs, flags => showWith env c flags :: showAll env codecs (flags.drop c.visibleRefs)

end

/-! ## Which references decoding and encoding follow -/

/-- The flags of `n` items, each of which begins where the one before it
ends. -/
def followItems (flags : Nat → List Bool) (next : Nat → Option Nat) : (n offset : Nat) → List Bool → List Bool
  | 0, _, acc => acc
  | n + 1, i, acc =>
    let acc := mergeFlags acc (flags i)
    match next i with
    | some j => followItems flags next n j acc
    | none => acc

/-- The offset behind a value, if there is one. -/
def behind? (env : Environment) (c : Codec) (buf : Bytes) (offset : Nat) : Option Nat :=
  match c.decodeFrom env buf offset with
  | .ok (_, i) => some i
  | .error _ => none

mutual

/-- The references that decoding at an offset follows, whether it succeeds or
not. -/
def followedByDecode (env : Environment) : Codec → Bytes → Nat → List Bool
  | .seq item, buf, offset =>
    match decodeCompact none buf offset with
    | .error _ => item.unfollowed
    | .ok (n, i) =>
      if buf.length < n + i then followedByDecode env item buf i
      else followItems (followedByDecode env item buf) (item.behind? env buf) n i item.unfollowed
  | .array item length, buf, offset =>
    followItems (followedByDecode env item buf) (item.behind? env buf) length offset item.unfollowed
  | .tuple codecs, buf, offset => followedByDecodeAll env codecs buf (some offset)
  | .option inner, buf, offset =>
    match readByte buf offset with
    | .ok (1, i) => followedByDecode env inner buf i
    | _ => inner.unfollowed
  | .result ok err, buf, offset =>
    match readByte buf offset with
    | .ok (0, i) => followedByDecode env ok buf i ++ err.unfollowed
    | .ok (1, i) => ok.unfollowed ++ followedByDecode env err buf i
    | _ => ok.unfollowed ++ err.unfollowed
  | .ref _, _, _ => [true]
  | _, _, _ => []

/-- The references that decoding several values follows, as far as it gets. -/
def followedByDecodeAll (env : Environment) : List Codec → Bytes → Option Nat → List Bool
  | [], _, _ => []
  | c :: codecs, buf, some i => followedByDecode env c buf i ++ followedByDecodeAll env codecs buf (c.behind? env buf i)
  | c :: codecs, buf, none => c.unfollowed ++ followedByDecodeAll env codecs buf none

end

/-- Whether a value can be encoded. -/
def encodes (env : Environment) (c : Codec) (v : Value) : Bool :=
  (c.encode env v).isOk

/-- The flags of items, up to the first one that cannot be encoded. -/
def followValues (flags : Value → List Bool) (good : Value → Bool) : List Value → List Bool → List Bool
  | [], acc => acc
  | v :: rest, acc =>
    let acc := mergeFlags acc (flags v)
    if good v then followValues flags good rest acc else acc

mutual

/-- The references that encoding a value follows, whether it succeeds or not. -/
def followedByEncode (env : Environment) : Codec → Value → List Bool
  | .seq item, v =>
    followValues (followedByEncode env item) (item.encodes env) (v.items?.getD []) item.unfollowed
  | .array item length, v =>
    let items := v.items?.getD []
    if items.length = length then
      followValues (followedByEncode env item) (item.encodes env) items item.unfollowed
    else item.unfollowed
  | .tuple codecs, v =>
    let items := v.items?.getD []
    followedByEncodeAll env codecs (if items.length = codecs.length then items else [])
  | .option inner, v =>
    match v with
    | .none => inner.unfollowed
    | v => followedByEncode env inner v
  | .result ok err, v =>
    match v with
    | .ok v => followedByEncode env ok v ++ err.unfollowed
    | .err v => ok.unfollowed ++ followedByEncode env err v
    | _ => ok.unfollowed ++ err.unfollowed
  | .ref _, _ => [true]
  | _, _ => []

/-- The references that encoding several values follows, as far as it gets. -/
def followedByEncodeAll (env : Environment) : List Codec → List Value → List Bool
  | [], _ => []
  | c :: codecs, [] => c.unfollowed ++ followedByEncodeAll env codecs []
  | c :: codecs, v :: rest =>
    followedByEncode env c v ++ followedByEncodeAll env codecs (if c.encodes env v then rest else [])

end

/-! ## Strict decoding -/

/-- **Strict decoding.** The value that a byte string is the encoding of. The
flags say which references were followed before; they matter only for what is
shown when bytes are left over. -/
def decode (env : Environment) (c : Codec) (flags : List Bool) (buf : Bytes) : Except DecodeError Value := do
  let shown := c.showWith env (mergeFlags flags (c.followedByDecode env buf 0))
  closing buf shown (← c.decodeFrom env buf 0)

end ContractClient.Codec
