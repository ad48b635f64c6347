import HashCryptoLib.Pgp.Faults
import HashCryptoLib.Pgp.StandIn

/-!
Atomicity of the mutators: which of them leave the engine as it was when they
report an error. All do but one. `AddUserId` appends the new user ID before it
hands over to `SetPrimaryUserId`, so a failure there leaves it behind.
-/

namespace HashCryptoLib.Pgp

/-- The calls that change an own identity. -/
inductive MutatorCall
  | addUserId (password : Bytes) (userId : Buffer) (makePrimary : Bool)
  | revokeUserId (password : Bytes) (userIdIndex : ℤ) (reasonCode : UInt8) (reasonText : Buffer)
  | setPrimaryUserId (password : Bytes) (userIdIndex : ℤ)
  | addSubkey (password : Bytes) (keyFlags : UInt8) (expirationSeconds : UInt32)
  | revokeSubkey (password : Bytes) (subkeyIndex : ℤ) (reasonCode : UInt8) (reasonText : Buffer)
  | setKeyExpiration (password : Bytes) (subkeyIndex : ℤ) (expirationSeconds : UInt32)
  | revokeKeyArmored (password : Bytes) (reasonCode : UInt8) (reasonText : Buffer)
      (buffer : Option Int32)
  | changePassword (oldPassword newPassword : Bytes)

section Atomicity

variable (P : Primitives) (faults : Faults) (env : Env)

/-- The status a call returns and the state it leaves. -/
def MutatorCall.run (impl : Impl) : MutatorCall → Except Fault (Status × Impl)
  | .addUserId password userId makePrimary =>
    .ok (AddUserIdWith P faults env password userId makePrimary impl)
  | .revokeUserId password userIdIndex reasonCode reasonText =>
    .ok (RevokeUserIdWith P faults (env.clock 0) password userIdIndex reasonCode reasonText impl)
  | .setPrimaryUserId password userIdIndex =>
    .ok (SetPrimaryUserIdWith P (faults.signing 0) (env.clock 0) password userIdIndex impl)
  | .addSubkey password keyFlags expirationSeconds =>
    .ok (AddSubkeyWith P faults env password keyFlags expirationSeconds impl)
  | .revokeSubkey password subkeyIndex reasonCode reasonText =>
    .ok (RevokeSubkeyWith P faults (env.clock 0) password subkeyIndex reasonCode reasonText impl)
  | .setKeyExpiration password subkeyIndex expirationSeconds =>
    .ok (SetKeyExpirationWith P faults (env.clock 0) password subkeyIndex expirationSeconds impl)
  | .revokeKeyArmored password reasonCode reasonText buffer =>
    (RevokeKeyArmoredWith P faults (env.clock 0) password reasonCode reasonText buffer impl).map
      fun result => (result.1.status, result.2)
  | .changePassword oldPassword newPassword =>
    .ok (ChangePasswordWith P faults env oldPassword newPassword impl)

/-- An error leaves the engine as it was. -/
def Unchanged (impl : Impl) (result : Status × Impl) : Prop :=
  result.1 ≠ NO_ERROR → result.2 = impl

def MutatorCall.Atomic (impl : Impl) (call : MutatorCall) : Prop :=
  ∀ result, call.run P faults env impl = .ok result → Unchanged impl result

/-- The certification `AddUserId` gives a new user ID, and the one with the
Primary User ID flag that `SetPrimaryUserId` replaces it by. -/
def newCertification (userId : Buffer) (impl : Impl) : Bytes :=
  caught (faults.signing 0) (signWithOwnMasterKey P impl 0x13
    (buildUserIdCertificationDocument (buildOwnMasterPubBody impl) userId.1)
    (flagsAndExpiration 0x03 impl.keyExpirationSeconds) (env.clock 1))

def newPrimaryCertification (userId : Buffer) (impl : Impl) : Bytes :=
  caught (faults.signing 1) (signWithOwnMasterKey P impl 0x13
    (buildUserIdCertificationDocument (buildOwnMasterPubBody impl) userId.1)
    (flagsAndExpiration 0x03 impl.keyExpirationSeconds ++ buildPrimaryUserIdSubpacket true)
    (env.clock 2))

/-- `AddUserId` is to make the new user ID primary, and of its two signings only
the first succeeds. -/
def MutatorCall.StopsHalfway (impl : Impl) : MutatorCall → Prop
  | .addUserId password userId makePrimary =>
    makePrimary = true ∧ userId.1 ≠ [] ∧ rejects P impl password = false ∧
      newCertification P faults env userId impl ≠ [] ∧
      newPrimaryCertification P faults env userId impl = []
  | _ => False

variable {P faults env} {impl : Impl}

theorem Unchanged.same (status : Status) : Unchanged impl (status, impl) := fun _ => rfl

/-- What is stored is stored with the last step, by a call that succeeds. -/
theorem Unchanged.stores (p : Prop) [Decidable p] (impl' : Impl) :
    Unchanged impl (if p then (UNEXPECTED_ERROR, impl) else (NO_ERROR, impl')) := by
  split
  · exact Unchanged.same _
  · exact fun hstatus => absurd rfl hstatus

theorem SetPrimaryUserIdWith_unchanged (throws : Bool) (now : UInt32) (password : Bytes)
    (userIdIndex : ℤ) :
    Unchanged impl (SetPrimaryUserIdWith P throws now password userIdIndex impl) := by
  unfold SetPrimaryUserIdWith
  split
  · exact Unchanged.same _
  · split
    · exact Unchanged.same _
    · apply Unchanged.stores

theorem RevokeUserIdWith_unchanged (now : UInt32) (password : Bytes) (userIdIndex : ℤ)
    (reasonCode : UInt8) (reasonText : Buffer) :
    Unchanged impl
      (RevokeUserIdWith P faults now password userIdIndex reasonCode reasonText impl) := by
  unfold RevokeUserIdWith
  split
  · exact Unchanged.same _
  · split
    · exact Unchanged.same _
    · apply Unchanged.stores

theorem RevokeSubkeyWith_unchanged (now : UInt32) (password : Bytes) (subkeyIndex : ℤ)
    (reasonCode : UInt8) (reasonText : Buffer) :
    Unchanged impl
      (RevokeSubkeyWith P faults now password subkeyIndex reasonCode reasonText impl) := by
  unfold RevokeSubkeyWith
  split
  · exact Unchanged.same _
  · split
    · exact Unchanged.same _
    · apply Unchanged.stores

theorem SetKeyExpirationWith_unchanged (now : UInt32) (password : Bytes) (subkeyIndex : ℤ)
    (expirationSeconds : UInt32) :
    Unchanged impl
      (SetKeyExpirationWith P faults now password subkeyIndex expirationSeconds impl) := by
  unfold SetKeyExpirationWith
  split
  · exact Unchanged.same _
  split
  · split
    · exact Unchanged.same _
    · split
      · exact Unchanged.same _
      · apply Unchanged.stores
  · split
    · exact Unchanged.same _
    · apply Unchanged.stores

theorem AddSubkeyWith_unchanged (password : Bytes) (keyFlags : UInt8)
    (expirationSeconds : UInt32) :
    Unchanged impl (AddSubkeyWith P faults env password keyFlags expirationSeconds impl) := by
  unfold AddSubkeyWith
  split
  · exact Unchanged.same _
  split
  · exact Unchanged.same _
  split
  · exact Unchanged.same _
  split
  · exact Unchanged.same _
  · apply Unchanged.stores

theorem ChangePasswordWith_unchanged (oldPassword newPassword : Bytes) :
    Unchanged impl (ChangePasswordWith P faults env oldPassword newPassword impl) := by
  unfold ChangePasswordWith
  split
  · exact Unchanged.same _
  · apply Unchanged.stores

theorem RevokeKeyArmoredWith_state (now : UInt32) (password : Bytes) (reasonCode : UInt8)
    (reasonText : Buffer) (buffer : Option Int32) {result : Outcome × Impl}
    (hresult : RevokeKeyArmoredWith P faults now password reasonCode reasonText buffer impl =
      .ok result) : result.2 = impl := by
  unfold RevokeKeyArmoredWith at hresult
  dsimp only at hresult
  split_ifs at hresult
  · obtain rfl := Except.ok.inj hresult
    rfl
  · obtain rfl := Except.ok.inj hresult
    rfl
  · cases hdeliver : deliver buffer 0 (armorEncode (ascii "PGP PUBLIC KEY BLOCK")
        (caught (faults.signing 0) (signWithOwnMasterKey P impl 0x20
          (buildKeyHashPrefix (buildOwnMasterPubBody impl))
          (buildRevocationReasonSubpacket reasonCode reasonText.1) now))) with
    | error fault =>
        rw [hdeliver] at hresult
        cases hresult
    | ok outcome =>
        rw [hdeliver] at hresult
        obtain rfl := Except.ok.inj hresult
        rfl

/-- The last of the user IDs, which `AddUserId` has just appended. -/
theorem atIndex_last {α : Type} (xs : List α) (x : α) :
    atIndex (xs ++ [x]) ((xs ++ [x]).length - 1) = some x := by
  have hlen : ((xs ++ [x]).length : ℤ) - 1 = xs.length := by simp
  rw [hlen, atIndex, if_pos (Int.natCast_nonneg _), Int.toNat_natCast]
  simp

/-- Making the user ID just appended primary depends on the second signing. -/
theorem SetPrimaryUserIdWith_last {password : Bytes} (hpassword : rejects P impl password = false)
    (throws : Bool) (now : UInt32) (uids : List PgpOwnUserId) (uid : PgpOwnUserId) :
    ∃ impl', SetPrimaryUserIdWith P throws now password ((uids ++ [uid]).length - 1)
        { impl with ownUserIds := uids ++ [uid] } =
      if caught throws (signWithOwnMasterKey P impl 0x13
          (buildUserIdCertificationDocument (buildOwnMasterPubBody impl) uid.uidText)
          (flagsAndExpiration 0x03 impl.keyExpirationSeconds ++ buildPrimaryUserIdSubpacket true)
          now) = [] then (UNEXPECTED_ERROR, { impl with ownUserIds := uids ++ [uid] })
      else (NO_ERROR, impl') := by
  have haccepted : ¬ rejects P { impl with ownUserIds := uids ++ [uid] } password = true := by
    show ¬ rejects P impl password = true
    rw [hpassword]
    exact Bool.false_ne_true
  rw [SetPrimaryUserIdWith, atIndex_last]
  exact ⟨_, if_neg haccepted⟩

/-- A call that stops halfway keeps the new user ID. -/
theorem AddUserIdWith_halfway {password : Bytes} {userId : Buffer} {makePrimary : Bool}
    (h : (MutatorCall.addUserId password userId makePrimary).StopsHalfway P faults env impl) :
    AddUserIdWith P faults env password userId makePrimary impl =
      (UNEXPECTED_ERROR, { impl with
        ownUserIds := impl.ownUserIds ++
          [{ uidText := userId.1, certCreationTime := env.clock 0
             certSigPacket := newCertification P faults env userId impl }] }) := by
  obtain ⟨rfl, huser, hpassword, hcert, hprimary⟩ := h
  have hguard : ¬ (userId.1 = [] ∨ rejects P impl password = true) := by simp [huser, hpassword]
  obtain ⟨impl', hlast⟩ := SetPrimaryUserIdWith_last hpassword (faults.signing 1) (env.clock 2)
    impl.ownUserIds { uidText := userId.1, certCreationTime := env.clock 0
                      certSigPacket := newCertification P faults env userId impl }
  unfold newCertification at hcert hlast ⊢
  rw [AddUserIdWith, if_neg hguard]
  dsimp only
  rw [if_neg hcert, if_pos rfl]
  exact hlast.trans (if_pos hprimary)

theorem AddUserIdWith_unchanged (password : Bytes) (userId : Buffer) (makePrimary : Bool)
    (h : ¬ (MutatorCall.addUserId password userId makePrimary).StopsHalfway P faults env impl) :
    Unchanged impl (AddUserIdWith P faults env password userId makePrimary impl) := by
  unfold AddUserIdWith
  split
  · exact Unchanged.same _
  rename_i hguard
  obtain ⟨huser, hpassword⟩ := not_or.mp hguard
  dsimp only
  split
  · exact Unchanged.same _
  rename_i hcert
  split
  · rename_i hprimary
    have hsecond : newPrimaryCertification P faults env userId impl ≠ [] := by
      intro hempty
      exact h ⟨hprimary, huser, by simpa using hpassword, hcert, hempty⟩
    -- the second signing succeeds, and the call with it
    obtain ⟨impl', hlast⟩ := SetPrimaryUserIdWith_last (by simpa using hpassword)
      (faults.signing 1) (env.clock 2) impl.ownUserIds
      { uidText := userId.1, certCreationTime := env.clock 0
        certSigPacket := newCertification P faults env userId impl }
    unfold newCertification at hlast
    rw [hlast.trans (if_neg hsecond)]
    exact fun hstatus => absurd rfl hstatus
  · exact fun hstatus => absurd rfl hstatus

/-- Every mutator is atomic, except `AddUserId` when it stops halfway. -/
theorem atomic_iff (call : MutatorCall) :
    call.Atomic P faults env impl ↔ ¬ call.StopsHalfway P faults env impl := by
  cases call with
  | addUserId password userId makePrimary =>
      constructor
      · intro hatomic hhalfway
        have hstate := hatomic _ rfl
        rw [AddUserIdWith_halfway hhalfway] at hstate
        have hsame := congrArg (fun state => state.ownUserIds.length)
          (hstate (by simp : UNEXPECTED_ERROR ≠ NO_ERROR))
        simp at hsame
      · rintro hhalfway result ⟨⟩
        exact AddUserIdWith_unchanged password userId makePrimary hhalfway
  | revokeUserId =>
      refine ⟨fun _ hhalfway => hhalfway, ?_⟩
      rintro - result ⟨⟩
      apply RevokeUserIdWith_unchanged
  | setPrimaryUserId =>
      refine ⟨fun _ hhalfway => hhalfway, ?_⟩
      rintro - result ⟨⟩
      apply SetPrimaryUserIdWith_unchanged
  | addSubkey =>
      refine ⟨fun _ hhalfway => hhalfway, ?_⟩
      rintro - result ⟨⟩
      apply AddSubkeyWith_unchanged
  | revokeSubkey =>
      refine ⟨fun _ hhalfway => hhalfway, ?_⟩
      rintro - result ⟨⟩
      apply RevokeSubkeyWith_unchanged
  | setKeyExpiration =>
      refine ⟨fun _ hhalfway => hhalfway, ?_⟩
      rintro - result ⟨⟩
      apply SetKeyExpirationWith_unchanged
  | revokeKeyArmored password reasonCode reasonText buffer =>
      refine ⟨fun _ hhalfway => hhalfway, ?_⟩
      rintro - result hresult -
      cases hrun : RevokeKeyArmoredWith P faults (env.clock 0) password reasonCode reasonText buffer
          impl with
      | error fault =>
          rw [MutatorCall.run, hrun] at hresult
          cases hresult
      | ok outcome =>
          rw [MutatorCall.run, hrun] at hresult
          obtain rfl := Except.ok.inj hresult
          exact RevokeKeyArmoredWith_state _ _ _ _ _ hrun
  | changePassword =>
      refine ⟨fun _ hhalfway => hhalfway, ?_⟩
      rintro - result ⟨⟩
      apply ChangePasswordWith_unchanged

end Atomicity

/-- The second signing of the call throws. -/
def secondSigningThrows : Faults := ⟨false, fun i => i = 1, fun _ => false⟩

/-- A user ID that could not be made primary has been added all the same. -/
theorem addUserId_keeps :
    Reachable standIn (freshOwner standIn (Env.numbered 1000 7) (ascii "alice") (ascii "pw") 0) ∧
      ∃ impl', (MutatorCall.addUserId (ascii "pw") ⟨ascii "bob", by decide⟩ true).run standIn
          secondSigningThrows (Env.numbered 2000 9)
          (freshOwner standIn (Env.numbered 1000 7) (ascii "alice") (ascii "pw") 0) =
          .ok (UNEXPECTED_ERROR, impl') ∧
        (freshOwner standIn (Env.numbered 1000 7) (ascii "alice") (ascii "pw") 0).ownUserIds.map
          PgpOwnUserId.uidText = [ascii "alice"] ∧
        impl'.ownUserIds.map PgpOwnUserId.uidText = [ascii "alice", ascii "bob"] := by
  refine ⟨freshOwner_reachable (P := standIn) (Env.numbered 1000 7) ⟨ascii "alice", by decide⟩ 0
    (by decide) (show ascii "pw" ≠ [] by decide), _,
    congrArg Except.ok (AddUserIdWith_halfway ?_), rfl, rfl⟩
  refine ⟨rfl, by decide, by decide, ?_, rfl⟩
  exact buildEd25519SignaturePacket_ne_nil _ _ _ _ _ _ _

end HashCryptoLib.Pgp
