/-
The code of a contract, from a document to the chain.

A document may declare the hash of its code, it may hold the code, and code may
be handed in beside it. What is handed in comes first, and an empty code is a
code. The loader compares the declared hash with the code of the document and
the compiler compares it with the code that is used, so a hash that was declared
is the hash of both.

The unit keeps the reference to the code and its hash, the module keeps them as
constants, and the function of the module that stores code lets no other code
pass. All of this holds of any hash with digests of thirty-two bytes.
-/
import ContractClient.Client.Source
import ContractClient.Hash.Blake2b
import ContractClient.Proofs.Bytes.Hex
import ContractClient.Proofs.Client.Calls
import ContractClient.Proofs.Client.Scoping
import ContractClient.Proofs.Metadata.Inversion

set_option autoImplicit false

namespace ContractClient

/-! ## What a document says about its code -/

/-- The bytes that a document gives under a key of its source, if it gives
any. -/
def Document.sourceBytes? (document : Document) (key : String) : Option Bytes :=
  match Load.object document with
  | .ok doc =>
    match Load.get doc "source" with
    | .obj source => (Load.get source key).hexBytes?
    | _ => none
  | .error _ => none

namespace Load

variable {hash : HashFunction} {place : Json.Path} {v : Json}

/-- What the loader finds under `source`: nothing, or the members of an object,
of which the hash has thirty-two bytes and is the hash of the code. -/
theorem source_eq_ok {declared code : Option Bytes} (h : source hash place v = .ok (declared, code)) :
    ((∃ members, v = .obj members ∧ (get members "hash").hexBytes? = declared ∧
        (get members "wasm").hexBytes? = code) ∨ v = .null ∧ declared = none ∧ code = none) ∧
      (∀ d, declared = some d → d.length = 32) ∧ ∀ d w, declared = some d → code = some w → hash w = d := by
  unfold source at h
  split at h
  · cases h
    exact ⟨.inr ⟨rfl, rfl, rfl⟩, nofun, nofun⟩
  · obtain ⟨members, hmembers, h⟩ := bind_ok_iff.1 h
    obtain ⟨declared', hdeclared, h⟩ := bind_ok_iff.1 h
    obtain ⟨code', hcode, h⟩ := bind_ok_iff.1 h
    have hlength : ∀ d, declared' = some d → d.length = 32 := by
      rintro d rfl
      rcases optional_eq_ok hdeclared with hnull | ⟨b, hb, hread⟩
      · rw [hnull] at hdeclared
        cases hdeclared
      · cases hb
        exact (hexOfLength_eq_ok hread).2
    -- The two are only compared where both are there.
    have hpair : declared' = declared ∧ code' = code ∧ ∀ d w, declared' = some d → code' = some w → hash w = d := by
      split at h
      next d w =>
        split at h
        next heq =>
          cases h
          refine ⟨rfl, rfl, ?_⟩
          rintro _ _ ⟨⟩ ⟨⟩
          exact heq
        · cases h
      next hne =>
        cases h
        exact ⟨rfl, rfl, fun d w hd hw => (hne d w hd hw).elim⟩
    obtain ⟨rfl, rfl, hagree⟩ := hpair
    exact ⟨.inl ⟨members, asObject_eq_ok hmembers,
      hexBytes?_of_optional (fun bs hbs => (hexOfLength_eq_ok hbs).1) hdeclared,
      hexBytes?_of_optional (fun bs hbs => hbs) hcode⟩, hlength, hagree⟩

/-- The source is read last. -/
theorem source_of_members {strict : Bool} {doc : Members} {m : Metadata} (h : members hash strict doc = .ok m) :
    source hash [.key "source"] (get doc "source") = .ok (m.sourceHash, m.wasm) := by
  obtain ⟨_, -, h⟩ := bind_ok_iff.1 h
  cases strict
  case' true => obtain ⟨_, -, h⟩ := bind_ok_iff.1 h
  all_goals
    obtain ⟨_, -, h⟩ := bind_ok_iff.1 h
    obtain ⟨_, -, h⟩ := bind_ok_iff.1 h
    obtain ⟨_, -, h⟩ := bind_ok_iff.1 h
    obtain ⟨_, -, h⟩ := bind_ok_iff.1 h
    obtain ⟨_, -, h⟩ := bind_ok_iff.1 h
    obtain ⟨_, -, h⟩ := bind_ok_iff.1 h
    obtain ⟨_, -, h⟩ := bind_ok_iff.1 h
    obtain ⟨_, -, h⟩ := bind_ok_iff.1 h
    obtain ⟨_, -, h⟩ := bind_ok_iff.1 h
    obtain ⟨_, -, h⟩ := bind_ok_iff.1 h
    obtain ⟨_, -, h⟩ := bind_ok_iff.1 h
    obtain ⟨_, -, h⟩ := bind_ok_iff.1 h
    obtain ⟨⟨declared, code⟩, hsource, heq⟩ := bind_ok_iff.1 h
    cases heq
    exact hsource

end Load

/-- What was loaded has the hash and the code that the document gives. -/
structure SourceLoaded (hash : HashFunction) (document : Document) (m : Metadata) : Prop where
  declared : m.sourceHash = document.sourceBytes? "hash"
  embedded : m.wasm = document.sourceBytes? "wasm"
  length : ∀ d, m.sourceHash = some d → d.length = 32
  agrees : ∀ d w, m.sourceHash = some d → m.wasm = some w → hash w = d

/-- A document that loads has its hash and its code where the loader looks for
them, in the forms that it accepts. -/
theorem load_source {hash : HashFunction} {strict : Bool} {document : Document} {m : Metadata}
    (h : document.load hash strict = .ok m) : SourceLoaded hash document m := by
  obtain ⟨doc, hdoc, h⟩ := bind_ok_iff.1 h
  obtain ⟨hread, hlength, hagree⟩ := Load.source_eq_ok (Load.source_of_members h)
  have hbytes : ∀ key, document.sourceBytes? key = match Load.get doc "source" with
      | .obj source => (Load.get source key).hexBytes?
      | _ => none := by
    intro key
    rw [Document.sourceBytes?, hdoc]
  refine ⟨?_, ?_, hlength, hagree⟩
  · rcases hread with ⟨source, hobject, hdeclared, -⟩ | ⟨hnull, hdeclared, -⟩
    · rw [hbytes, hobject]
      exact hdeclared.symm
    · rw [hbytes, hnull]
      exact hdeclared
  · rcases hread with ⟨source, hobject, -, hcode⟩ | ⟨hnull, -, hcode⟩
    · rw [hbytes, hobject]
      exact hcode.symm
    · rw [hbytes, hnull]
      exact hcode

/-! ## What a unit knows of its code -/

/-- What a unit knows of its code, given the hash that was declared, the code in
the document, and the code that was handed in. -/
structure KnowsCode (hash : HashFunction) (declared embedded passed : Option Bytes) (u : CompilationUnit) : Prop where
  isSome : u.bytecode.isSome ↔ (passed.or embedded).isSome
  /-- Code has a reference, and goes by its hash. -/
  known : ∀ code, passed.or embedded = some code →
    u.bytecode = some ⟨hash code, code.length⟩ ∧ u.codeHash = some (hash code)
  /-- Without code there is only the hash that was declared. -/
  unknown : passed.or embedded = none → u.codeHash = declared
  /-- A hash that was declared is the hash of all code beside it, used or
  not. -/
  agrees : ∀ d, declared = some d →
    u.codeHash = some d ∧ ∀ code, passed = some code ∨ embedded = some code → hash code = d

/-- A unit with code knows the hash of this code. -/
theorem KnowsCode.codeHash_of_bytecode {hash : HashFunction} {declared embedded passed : Option Bytes}
    {u : CompilationUnit} (h : KnowsCode hash declared embedded passed u) (ref : BytecodeRef)
    (href : u.bytecode = some ref) : u.codeHash = some ref.codeHash := by
  have hcode := h.isSome.1 (by rw [href, Option.isSome_some])
  obtain ⟨code, hcode⟩ := Option.isSome_iff_exists.1 hcode
  obtain ⟨hbytecode, hhash⟩ := h.known code hcode
  cases href.symm.trans hbytecode
  exact hhash

/-- Of what is settled, the code decides if there is any. -/
theorem settleCode_ok_iff {hash : HashFunction} {code declared : Option Bytes} {r : Option BytecodeRef × Option Bytes} :
    settleCode hash code declared = .ok r ↔
      (∀ d w, declared = some d → code = some w → d = hash w) ∧
        r = (code.map (BytecodeRef.ofCode hash), (code.map hash).or declared) := by
  cases code with
  | none => simp [settleCode, eq_comm]
  | some w =>
    cases declared with
    | none => simp [settleCode, BytecodeRef.ofCode, eq_comm]
    | some d =>
      by_cases heq : d = hash w
      · simp [settleCode, BytecodeRef.ofCode, heq, eq_comm]
      · simp [settleCode, BytecodeRef.ofCode, heq]

/-- What a unit knows of its code was settled when its document had been
loaded. -/
theorem exists_settled {hash : HashFunction} {settings : Settings} {wasm : Option Bytes} {document : Document}
    {u : CompilationUnit} (h : document.compile hash settings wasm = .ok u) :
    ∃ m, SourceLoaded hash document m ∧
      settleCode hash (wasm.or m.wasm) m.sourceHash = .ok (u.bytecode, u.codeHash) := by
  obtain ⟨m, hload, h⟩ := bind_ok_iff.1 h
  obtain ⟨⟨bytecode, codeHash⟩, hsettle, h⟩ := bind_ok_iff.1 h
  obtain ⟨registry, -, h⟩ := bind_ok_iff.1 h
  obtain ⟨methods, -, h⟩ := bind_ok_iff.1 h
  obtain ⟨events, -, heq⟩ := bind_ok_iff.1 h
  cases heq
  exact ⟨m, load_source (mapError_ok_iff.1 hload), Option.or_eq_orElse ▸ hsettle⟩

/-- **What a unit knows of its code**: the code passed beside the document goes
before the one embedded in it, and the hash that the document declares is
compared with the hash of either. -/
theorem compile_knowsCode {hash : HashFunction} {settings : Settings} {wasm : Option Bytes} {document : Document}
    {u : CompilationUnit} (h : document.compile hash settings wasm = .ok u) :
    KnowsCode hash (document.sourceBytes? "hash") (document.sourceBytes? "wasm") wasm u := by
  obtain ⟨m, hsource, hsettle⟩ := exists_settled h
  rw [← hsource.declared, ← hsource.embedded]
  obtain ⟨hused, hpair⟩ := settleCode_ok_iff.1 hsettle
  obtain ⟨hbytecode, hhash⟩ := Prod.mk.inj hpair
  refine ⟨by rw [hbytecode, Option.isSome_map], fun code hcode => ?_, fun hcode => ?_, fun d hd => ⟨?_, ?_⟩⟩
  · rw [hbytecode, hhash, hcode]
    exact ⟨rfl, rfl⟩
  · rw [hhash, hcode]
    rfl
  · rw [hhash, hd]
    cases hcode : wasm.or m.wasm with
    | none => rfl
    | some code => exact congrArg some (hused d code hd hcode).symm
  · rintro code (hcode | hcode)
    · exact (hused d code hd (by rw [hcode, Option.some_or])).symm
    · exact hsource.agrees d code hd hcode

/-- The hash under which code is known has thirty-two bytes, whether it was
declared or taken. -/
theorem length_codeHash {hash : HashFunction} (hdigest : ∀ code, (hash code).length = 32) {settings : Settings}
    {wasm : Option Bytes} {document : Document} {u : CompilationUnit}
    (h : document.compile hash settings wasm = .ok u) {d : Bytes} (hd : u.codeHash = some d) : d.length = 32 := by
  obtain ⟨m, hsource, hsettle⟩ := exists_settled h
  have hhash := (Prod.mk.inj (settleCode_ok_iff.1 hsettle).2).2
  rw [hd] at hhash
  cases hcode : wasm.or m.wasm with
  | none =>
    rw [hcode] at hhash
    exact hsource.length d hhash.symm
  | some code =>
    rw [hcode] at hhash
    cases hhash
    exact hdigest code

/-! ## What a module keeps of it -/

/-- What a module keeps of the code of a unit: its hash, which reads back from
the text, its length, and a function that stores code, under names that nothing
else in the module has. -/
structure KeepsCode (u : CompilationUnit) (m : ClientModule) : Prop where
  codeHash : ∀ d, u.codeHash = some d → "CODE_HASH = Hash(\"" ++ Bytes.toHex0x d ++ "\")" ∈ m.constantLines ∧
    Newtype.hash.ofText (Bytes.toHex0x d) = .ok d
  length : ∀ ref, u.bytecode = some ref → "CODE_LEN = " ++ toString ref.length ∈ m.constantLines
  upload : .upload ∈ m.statements ↔ u.bytecode.isSome
  names : ∀ name ∈ ["upload", "upload_code", "CODE_HASH", "CODE_LEN"], name ∉ m.classNames ∧
    (m.handle ∉ moduleReserved → name ≠ m.handle)

/-- A hash that is written in digits is read again as it was. -/
theorem ofText_toHex0x {kind : Newtype} {bs : Bytes} (h : bs.length = 32) :
    kind.ofText (Bytes.toHex0x bs) = .ok bs := by
  rw [Newtype.ofText, Bytes.after0x?_toHex0x, Option.getD_some, Bytes.ofHex?_toHex]
  exact if_pos h

/-- No declaration stores code. The function that does stands behind the handle,
if it stands in the module at all, so whether there is one is decided by the
last statement alone. -/
theorem upload_notMem_declaring (m : ClientModule) : .upload ∉ m.declaring := by
  -- Block by block: no class is the uploading statement, and neither is what wires it.
  have hclasses : ∀ d : Declaration, ∀ block ∈ d.classes, .upload ∉ block := by
    rintro (record | ⟨name, docs, arms⟩) block hblock
    · rw [Declaration.classes, List.mem_singleton] at hblock
      simp [hblock]
    · simp only [Declaration.classes, List.cons_append, List.mem_cons, List.mem_append, List.mem_map,
        List.not_mem_nil, or_false] at hblock
      rcases hblock with rfl | ⟨arm, -, rfl⟩ | rfl <;> simp [ArmClass.declare, ArmClass.offer]
  have hwiring : ∀ block ∈ m.wiring, .upload ∉ block := by
    intro block hblock
    unfold ClientModule.wiring at hblock
    split at hblock
    · cases hblock
    · rw [List.mem_singleton.1 hblock, List.mem_map]
      rintro ⟨d, -, hd⟩
      cases d <;> cases hd
  have hevents : ∀ block ∈ m.eventBlocks, .upload ∉ block := by
    intro block hblock
    simp only [ClientModule.eventBlocks, List.cons_append, List.mem_cons, List.mem_append, List.mem_map,
      List.not_mem_nil, or_false] at hblock
    rcases hblock with rfl | ⟨arm, -, rfl⟩ | rfl <;> simp [ArmClass.declare, ArmClass.offer]
  -- The declaring part is the blocks of classes, of wiring and of events.
  rw [ClientModule.declaring, List.mem_flatten]
  rintro ⟨block, hblock, hmem⟩
  rcases List.mem_append.1 hblock with hblock | hblock
  · rcases List.mem_append.1 hblock with hblock | hblock
    · obtain ⟨d, -, hblock⟩ := List.mem_flatMap.1 hblock
      exact hclasses d block hblock hmem
    · exact hwiring block hblock hmem
  · exact hevents block hblock hmem

/-- A module has the function that stores code exactly if it has the length of
the code. -/
theorem upload_mem_statements {m : ClientModule} : .upload ∈ m.statements ↔ m.codeLength.isSome := by
  rw [m.statements_split, List.mem_append, or_iff_right (upload_notMem_declaring m), ClientModule.calling]
  cases m.codeLength <;> simp [ClientModule.interfaceStatement, ClientModule.handleStatement]

/-- A statement binds the function that stores code, or leaves it as it was. -/
theorem storesCode_run {s : Statement} {b b' : Bindings} (h : s.run b = .ok b') :
    b'.storesCode = true ↔ b.storesCode = true ∨ s = .upload := by
  have hsame : s ≠ .upload → b'.storesCode = b.storesCode →
      (b'.storesCode = true ↔ b.storesCode = true ∨ s = .upload) := by
    intro hother hstores
    rw [hstores, or_iff_left hother]
  obtain ⟨base, offeredAs, cls, rfl, rfl⟩ | ⟨rfl, rfl⟩ | ⟨c, hbinds, -, rfl⟩ | ⟨name, c, -, hwires, rfl⟩ |
    ⟨name, opening, body, c, members, rfl, -, -, rfl⟩ := run_cases h
  · exact hsame nofun (b.offer_storesCode base offeredAs)
  · simp
  · refine hsame ?_ rfl
    rintro rfl
    cases hbinds
  · refine hsame ?_ rfl
    rintro rfl
    cases hwires
  · exact hsame nofun rfl

/-- An import stores code if one of its statements does so. -/
theorem storesCode_runStatements {ss : List Statement} {b b' : Bindings} (h : runStatements b ss = .ok b') :
    b'.storesCode = true ↔ b.storesCode = true ∨ .upload ∈ ss := by
  induction ss generalizing b with
  | nil =>
    cases h
    simp
  | cons s rest ih =>
    obtain ⟨b₁, hfirst, hrest⟩ := bind_ok_iff.1 h
    rw [ih hrest, storesCode_run hfirst, List.mem_cons, or_assoc, @eq_comm _ s]

/-- **An import binds the function that stores code** exactly if the module has
the length of the code. -/
theorem storesCode_of_run {m : ClientModule} {b : Bindings} (h : m.run = .ok b) :
    b.storesCode = m.codeLength.isSome := by
  rw [Bool.eq_iff_iff, storesCode_runStatements (runStatements_of_run h), upload_mem_statements]
  simp

/-- A module keeps what the unit knows: the hash and the length of the code, and
the function that uploads it exactly where there is code. -/
theorem client_keepsCode {u : CompilationUnit} {runtimeModule handle : String} {m : ClientModule}
    (hlength : ∀ d, u.codeHash = some d → d.length = 32) (hreserved : ∀ name ∈ moduleReserved, name ∉ m.classNames)
    (h : u.client runtimeModule handle = .ok m) : KeepsCode u m := by
  have hmade := client_assembled h
  have hhash := hmade.codeHash
  have hcode := hmade.codeLength
  refine ⟨fun d hd => ⟨?_, ofText_toHex0x (hlength d hd)⟩, fun ref href => ?_, ?_, fun name hname => ?_⟩
  · simp [ClientModule.constantLines, hhash, hd]
  · simp [ClientModule.constantLines, hcode, href]
  · rw [upload_mem_statements, hcode, Option.isSome_map]
  · have hmem : name ∈ moduleReserved := by
      have hall : ∀ name ∈ ["upload", "upload_code", "CODE_HASH", "CODE_LEN"], name ∈ moduleReserved := by decide
      exact hall name hname
    exact ⟨hreserved name hmem, fun hhandle heq => hhandle (heq ▸ hmem)⟩

/-! ## What the module does with code -/

section

variable {σ τ ε : Type}

/-- What the function of a module does that stores code with the given
reference. -/
structure StoresCode (hash : HashFunction) (ref : BytecodeRef) (T : Transport σ τ ε)
    (upload : Bytes → σ × List TransportCall → Except (CallError ε) (Outcome τ) × σ × List TransportCall) : Prop where
  /-- It makes one call for code of the length and hash, with this code and the
  hash. -/
  submits_iff : ∀ code s log, (upload code (s, log)).2.2 = log ++ [.upload code ref.codeHash] ↔
    code.length = ref.length ∧ hash code = ref.codeHash
  /-- For any other code it makes none, and says what was wrong. -/
  refuses : ∀ code, ¬(code.length = ref.length ∧ hash code = ref.codeHash) →
    MakesNoCall (upload code) (.codeMismatch ref.codeHash ref.length (hash code) code.length)
  /-- The receipt is given for code that was stored, and for code that was there
  before. -/
  gives : ∀ code, code.length = ref.length ∧ hash code = ref.codeHash → ∀ s t log receipt,
    T.upload code ref.codeHash s = (.ok receipt, t) ∨
        T.upload code ref.codeHash s = (.error (.alreadyStored receipt), t) →
      upload code (s, log) = (.ok (.receipt receipt), t, log ++ [.upload code ref.codeHash])
  /-- Other failures are passed on. -/
  fails : ∀ code, code.length = ref.length ∧ hash code = ref.codeHash → ∀ s t log e,
    T.upload code ref.codeHash s = (.error (.failed e), t) →
      upload code (s, log) = (.error (.transport e), t, log ++ [.upload code ref.codeHash])

/-- What becomes of the answer when code was to be stored: the receipt, unless
the connection failed otherwise. -/
def storing : Except (UploadError ε τ) τ × σ → Except (CallError ε) (Outcome τ) × σ
  | (.ok receipt, s) => (.ok (.receipt receipt), s)
  | (.error (.alreadyStored receipt), s) => (.ok (.receipt receipt), s)
  | (.error (.failed e), s) => (.error (.transport e), s)

/-- Code of the length and hash is sent. -/
theorem uploadCode_makesCall {hash : HashFunction} {ref : BytecodeRef} {code : Bytes}
    (h : code.length = ref.length ∧ hash code = ref.codeHash) (T : Transport σ τ ε) :
    MakesCall (ClientModule.uploadCode T.logged hash ref.codeHash ref.length code) (.upload code ref.codeHash) fun s =>
      storing (T.upload code ref.codeHash s) := by
  intro s log
  have hmatches : ¬(code.length ≠ ref.length ∨ hash code ≠ ref.codeHash) := by
    rw [not_or, not_not, not_not]
    exact h
  rw [ClientModule.uploadCode, if_neg hmatches]
  cases hanswer : T.upload code ref.codeHash s with
  | mk answer t =>
    simp only [Transport.logged, hanswer]
    rcases answer with (receipt | e) | receipt <;> rfl

/-- Other code is refused. -/
theorem uploadCode_makesNoCall {hash : HashFunction} {ref : BytecodeRef} {code : Bytes}
    (h : ¬(code.length = ref.length ∧ hash code = ref.codeHash)) (T : Transport σ τ ε) :
    MakesNoCall (ClientModule.uploadCode T.logged hash ref.codeHash ref.length code)
      (.codeMismatch ref.codeHash ref.length (hash code) code.length) := by
  intro s log
  rw [ClientModule.uploadCode, if_pos (not_and_or.1 h)]

/-- The uploading function stores code with the hash that the module keeps, and
submits nothing else. Each field of `StoresCode` is one way in which a call
can end. -/
theorem uploadCode_storesCode (hash : HashFunction) (ref : BytecodeRef) (T : Transport σ τ ε) :
    StoresCode hash ref T (ClientModule.uploadCode T.logged hash ref.codeHash ref.length) where
  submits_iff code s log := by
    constructor
    · intro hcall
      by_contra h
      rw [uploadCode_makesNoCall h T s log] at hcall
      exact List.cons_ne_nil _ _ (List.self_eq_append_right.1 hcall)
    · intro h
      rw [uploadCode_makesCall h T s log]
  refuses code h := uploadCode_makesNoCall h T
  gives code h s t log receipt hanswer := by
    rw [uploadCode_makesCall h T s log]
    rcases hanswer with hanswer | hanswer <;> simp only [hanswer, storing]
  fails code h s t log e hanswer := by
    rw [uploadCode_makesCall h T s log]
    simp only [hanswer, storing]

/-- The function of a module that keeps the code of a unit stores this code,
once the module is imported. -/
theorem upload?_eq {u : CompilationUnit} {m : ClientModule} {b : Bindings} (hrun : m.run = .ok b)
    (hhash : m.codeHash = u.codeHash) (hlength : m.codeLength = u.bytecode.map (·.length)) (hash : HashFunction)
    (T : Transport σ τ ε) (href : ∀ ref, u.bytecode = some ref → u.codeHash = some ref.codeHash) :
    m.upload? T hash b = u.bytecode.map fun ref => ClientModule.uploadCode T hash ref.codeHash ref.length := by
  unfold ClientModule.upload?
  rw [storesCode_of_run hrun, hhash, hlength]
  cases hcode : u.bytecode with
  | none => cases u.codeHash <;> rfl
  | some ref =>
    rw [href ref hcode]
    rfl

end

/-! ## From a document to the chain -/

/-- **The code of a contract.** Of a document that is compiled, with code handed
in or without, the unit has a reference to the code exactly if there is some:
the code that was handed in, even if it is empty, or else the code of the
document. The reference is made of its hash and length, and the code goes by
that hash; without code it goes by the hash that was declared. A hash that was
declared is the hash of all code beside it. The module of the unit keeps the
hash and the length, and once it is imported it has a function that stores code
exactly if there is a reference. The function makes one call for code with this
length and hash and no call for any other, and it gives the receipt for code
that was stored before as well. -/
theorem code_settled {hash : HashFunction} (hdigest : ∀ code, (hash code).length = 32) {settings : Settings}
    {wasm : Option Bytes} {document : Document} {u : CompilationUnit}
    (hcompile : document.compile hash settings wasm = .ok u) :
    KnowsCode hash (document.sourceBytes? "hash") (document.sourceBytes? "wasm") wasm u ∧
      ∀ {runtimeModule handle : String} {m : ClientModule}, u.client runtimeModule handle = .ok m →
        KeepsCode u m ∧ ∀ b, m.run = .ok b → ∀ {σ τ ε : Type} (T : Transport σ τ ε),
          (∀ ref, u.bytecode = some ref → ∃ upload, m.upload? T.logged hash b = some upload ∧
            StoresCode hash ref T upload) ∧
          (u.bytecode = none → (m.upload? T.logged hash b).isNone) := by
  have hknows := compile_knowsCode hcompile
  refine ⟨hknows, fun hclient => ?_⟩
  obtain ⟨metadata, hresolve⟩ := compile_resolve hcompile
  have hkeeps := client_keepsCode (fun d => length_codeHash hdigest hcompile)
    (reserved_notMem_classNames hresolve hclient) hclient
  have hmade := client_assembled hclient
  refine ⟨hkeeps, fun b hrun σ τ ε T => ?_⟩
  have hupload := upload?_eq hrun hmade.codeHash hmade.codeLength hash T.logged hknows.codeHash_of_bytecode
  refine ⟨fun ref href => ⟨_, ?_, uploadCode_storesCode hash ref T⟩, fun hnone => ?_⟩
  · rw [hupload, href]
    rfl
  · rw [hupload, hnone]
    rfl

/-- A document that holds one byte of code and declares no hash. -/
def byteDocument : Document :=
  .value (.obj [("version", .int 4), ("contract", .obj [("name", .str "c"), ("version", .str "1")]),
    ("source", .obj [("wasm", .str "0x00")]), ("types", .arr []),
    ("spec", .obj [("constructors", .arr []), ("messages", .arr []), ("events", .arr [])])])

/-- The unit of the document with the empty code beside it. -/
def emptiedUnit (hash : HashFunction) : CompilationUnit :=
  { contractName := "c", contractVersion := "1", registry := ⟨[], []⟩, constructors := [], messages := [], events := []
    codeHash := some (hash []), bytecode := some ⟨hash [], 0⟩ }

theorem emptied_compile (hash : HashFunction) :
    byteDocument.compile hash transferSettings (some []) = .ok (emptiedUnit hash) := by
  cbv

/-- The empty code comes before the byte in the document. On a chain that has it
already it is stored once more, and the byte is refused. -/
theorem code_settled_empty :
    (∀ code, (Blake2b.digest code).length = 32) ∧ byteDocument.sourceBytes? "wasm" = some [0] ∧
      byteDocument.compile Blake2b.digest transferSettings (some []) = .ok (emptiedUnit Blake2b.digest) ∧
      ∃ m b upload, (emptiedUnit Blake2b.digest).client "inkgen.runtime" "Instance" = .ok m ∧ m.run = .ok b ∧
        m.upload? MemoryChain.transport.logged Blake2b.digest b = some upload ∧
        (∀ log, upload [] ({ stored := [Blake2b.digest []] }, log) =
          (.ok (.receipt none),
            { stored := [Blake2b.digest []], calls := [.upload [] (Blake2b.digest [])] },
            log ++ [.upload [] (Blake2b.digest [])])) ∧
        MakesNoCall (upload [0]) (.codeMismatch (Blake2b.digest []) 0 (Blake2b.digest [0]) 1) := by
  have hcompile := emptied_compile Blake2b.digest
  obtain ⟨m, b, hclient, hrun⟩ : ∃ m b, (emptiedUnit Blake2b.digest).client "inkgen.runtime" "Instance" = .ok m ∧
      m.run = .ok b := ⟨_, _, rfl, rfl⟩
  have hmodule := (code_settled Blake2b.length_digest hcompile).2 hclient
  obtain ⟨upload, hupload, hstores⟩ := (hmodule.2 b hrun MemoryChain.transport).1 _ rfl
  refine ⟨Blake2b.length_digest, rfl, hcompile, m, b, upload, hclient, hrun, hupload, fun log => ?_, ?_⟩
  · refine hstores.gives [] ⟨rfl, rfl⟩ _ _ log none (.inr ?_)
    simp [MemoryChain.transport, MemoryChain.record]
  · exact hstores.refuses [0] (by simp)

end ContractClient
