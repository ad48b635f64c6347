import HashCryptoLib.Pgp.Peer

/-!
What the choice of a peer's subkey is for: the newest one that can encrypt and is
still in use, or else the newest one that nothing is known about. The code takes
the sum of creation time and expiration in 32 bits, so that it overlooks some
subkeys, and falls back to any subkey at all, one that only signs among them. It
is right where neither makes a difference.
-/

namespace HashCryptoLib.Pgp

/-! ### The rule -/

namespace PgpPeerSubkey

/-- The creation time as a number. -/
def created (subkey : PgpPeerSubkey) : ℕ := subkey.creationTime.toNat

/-- The subkey has an expiration, and the time it says is not after `now`. -/
def Expires (subkey : PgpPeerSubkey) (now : UInt32) : Prop :=
  subkey.haveExpiration = true ∧ subkey.expirationSeconds ≠ 0 ∧
    subkey.created + subkey.expirationSeconds.toNat ≤ now.toNat

def Live (now : UInt32) (subkey : PgpPeerSubkey) : Prop :=
  subkey.isRevoked = false ∧ ¬ subkey.Expires now

/-- Flagged for encryption, and of an algorithm that encrypts. -/
def Capable (subkey : PgpPeerSubkey) : Prop := subkey.encrypts = true ∧ subkey.isEd25519 = false

/-- Without flags, and of an algorithm that encrypts. -/
def Unflagged (subkey : PgpPeerSubkey) : Prop :=
  subkey.haveKeyFlags = false ∧ subkey.isEd25519 = false

theorem Unflagged.not_encrypts {subkey : PgpPeerSubkey} (h : subkey.Unflagged) :
    subkey.encrypts = false := by
  rw [encrypts, h.1, Bool.false_and]

/-- What the code accepts is live: where the sum does not pass 32 bits, both sums are one,
and where it does, the subkey does not expire. -/
theorem live_of_usable {subkey : PgpPeerSubkey} {now : UInt32} (h : subkey.usable now = true) :
    subkey.Live now := by
  rw [usable, Bool.not_eq_true', Bool.or_eq_false_iff] at h
  refine ⟨h.1, ?_⟩
  rintro ⟨hhave, hne, hsum⟩
  have hnow := now.toNat_lt
  have hwrapped : (subkey.creationTime + subkey.expirationSeconds).toNat =
      subkey.created + subkey.expirationSeconds.toNat := by
    rw [UInt32.toNat_add, ← created]
    omega
  have hexpired : subkey.expired now = true := by
    simp [expired, hhave, UInt32.pos_iff_ne_zero.mpr hne, UInt32.le_iff_toNat_le, hwrapped, hsum]
  rw [hexpired] at h
  cases h.2

end PgpPeerSubkey

/-- The newest of a kind, or one of several. -/
def IsNewest (kind : PgpPeerSubkey → Prop) (subkeys : List PgpPeerSubkey)
    (chosen : PgpPeerSubkey) : Prop :=
  chosen ∈ subkeys ∧ kind chosen ∧
    ∀ subkey ∈ subkeys, kind subkey → subkey.created ≤ chosen.created

/-- The rule: a live subkey that is flagged for encryption, else one without flags, else
none. -/
inductive RightChoice (now : UInt32) (subkeys : List PgpPeerSubkey) : Option PgpPeerSubkey → Prop
  | capable {chosen : PgpPeerSubkey}
      (h : IsNewest (fun subkey => subkey.Live now ∧ subkey.Capable) subkeys chosen) :
      RightChoice now subkeys (some chosen)
  | unflagged {chosen : PgpPeerSubkey}
      (hnone : ∀ subkey ∈ subkeys, subkey.Live now → ¬ subkey.Capable)
      (h : IsNewest (fun subkey => subkey.Live now ∧ subkey.Unflagged) subkeys chosen) :
      RightChoice now subkeys (some chosen)
  | nothing
      (hnone : ∀ subkey ∈ subkeys, subkey.Live now → ¬ subkey.Capable ∧ ¬ subkey.Unflagged) :
      RightChoice now subkeys none

/-! ### The order of the choice -/

/-- One of a kind comes before this subkey in the choice: it is newer, or as new and
earlier in the list. -/
def Outdone (kind : PgpPeerSubkey → Prop) (subkeys before : List PgpPeerSubkey)
    (subkey : PgpPeerSubkey) : Prop :=
  (∃ other ∈ subkeys, kind other ∧ subkey.created < other.created) ∨
    ∃ other ∈ before, kind other ∧ other.created = subkey.created

/-- The first of the newest of a kind. -/
structure FirstNewest (kind : PgpPeerSubkey → Prop) (subkeys before after : List PgpPeerSubkey)
    (chosen : PgpPeerSubkey) : Prop where
  split : subkeys = before ++ chosen :: after
  of_kind : kind chosen
  before_lt : ∀ subkey ∈ before, kind subkey → subkey.created < chosen.created
  after_le : ∀ subkey ∈ after, kind subkey → subkey.created ≤ chosen.created

namespace FirstNewest

variable {kind kind' : PgpPeerSubkey → Prop} {subkeys before after : List PgpPeerSubkey}
  {chosen : PgpPeerSubkey}

theorem mem (h : FirstNewest kind subkeys before after chosen) : chosen ∈ subkeys := by
  rw [h.split]
  exact List.mem_append_right _ List.mem_cons_self

theorem le (h : FirstNewest kind subkeys before after chosen) {subkey : PgpPeerSubkey}
    (hmem : subkey ∈ subkeys) (hkind : kind subkey) :
    subkey.created ≤ chosen.created := by
  rw [h.split, List.mem_append, List.mem_cons] at hmem
  rcases hmem with hmem | rfl | hmem
  · exact (h.before_lt subkey hmem hkind).le
  · exact le_rfl
  · exact h.after_le subkey hmem hkind

theorem not_outdone (h : FirstNewest kind subkeys before after chosen)
    (hkind : ∀ subkey, kind' subkey → kind subkey) : ¬ Outdone kind' subkeys before chosen := by
  rintro (⟨other, hmem, hother, hlt⟩ | ⟨other, hmem, hother, heq⟩)
  · exact absurd (h.le hmem (hkind other hother)) (not_le.mpr hlt)
  · exact absurd heq (h.before_lt other hmem (hkind other hother)).ne

/-- Any other of the kind is outdone by the first. -/
theorem outdone (h : FirstNewest kind subkeys before after chosen) (hchosen : kind' chosen)
    {before' after' : List PgpPeerSubkey} {subkey : PgpPeerSubkey}
    (hsplit : subkeys = before' ++ subkey :: after') (hkind : kind subkey)
    (hne : ¬ kind' subkey) : Outdone kind' subkeys before' subkey := by
  have heq := h.split.symm.trans hsplit
  rcases List.append_eq_append_iff.mp heq with ⟨between, rfl, hrest⟩ | ⟨between, rfl, hrest⟩
  · cases between with
    | nil =>
        rw [List.nil_append, List.cons.injEq] at hrest
        exact absurd (hrest.1 ▸ hchosen) hne
    | cons first between =>
        rw [List.cons_append, List.cons.injEq] at hrest
        obtain ⟨rfl, rfl⟩ := hrest
        have hle := h.after_le subkey (by simp) hkind
        rcases hle.lt_or_eq with hlt | heq
        · exact Or.inl ⟨chosen, h.mem, hchosen, hlt⟩
        · exact Or.inr ⟨chosen, by simp, hchosen, heq.symm⟩
  · cases between with
    | nil =>
        rw [List.nil_append, List.cons.injEq] at hrest
        exact absurd (hrest.1 ▸ hchosen) hne
    | cons first between =>
        rw [List.cons_append, List.cons.injEq] at hrest
        obtain ⟨rfl, rfl⟩ := hrest
        exact Or.inl ⟨chosen, h.mem, hchosen, h.before_lt subkey (by simp) hkind⟩

end FirstNewest

theorem firstNewest_of_newest {kind : PgpPeerSubkey → Bool} {subkeys : List PgpPeerSubkey}
    {chosen : PgpPeerSubkey} (h : newest (subkeys.filter kind) = some chosen) :
    ∃ before after, FirstNewest (fun subkey => kind subkey = true) subkeys before after chosen := by
  obtain ⟨hmem, hle, hfirst⟩ := List.argmax_eq_some_iff.mp h
  obtain ⟨hmem, hkind⟩ := List.mem_filter.mp hmem
  obtain ⟨before, after, rfl, hbefore⟩ := List.eq_append_cons_of_mem hmem
  have hkept : (before ++ chosen :: after).filter kind =
      before.filter kind ++ chosen :: after.filter kind := by
    rw [List.filter_append, List.filter_cons_of_pos hkind]
  have hnotmem : chosen ∉ before.filter kind := fun h => hbefore (List.mem_filter.mp h).1
  refine ⟨before, after, rfl, hkind, fun subkey hsubkey hkind' => ?_, fun subkey hsubkey hkind' => ?_⟩
  · by_contra hnot
    have hmem' := List.mem_filter.mpr ⟨hsubkey, hkind'⟩
    have hindex := hfirst subkey
      (List.mem_filter.mpr ⟨List.mem_append_left _ hsubkey, hkind'⟩)
      (not_lt.mp hnot)
    rw [hkept, List.idxOf_append_of_notMem hnotmem, List.idxOf_cons_self,
      List.idxOf_append_of_mem hmem'] at hindex
    have hlt := List.idxOf_lt_length_of_mem hmem'
    omega
  · exact hle subkey (List.mem_filter.mpr
      ⟨List.mem_append_right _ (List.mem_cons_of_mem _ hsubkey), hkind'⟩)

/-! ### Where the code follows the rule -/

/-- The conditions under which neither the sum in 32 bits nor the fallback makes a
difference. The first two are about live subkeys that the code takes for expired, the
others about accepted subkeys that cannot encrypt. -/
structure Discerned (now : UInt32) (subkeys : List PgpPeerSubkey) : Prop where
  capable : ∀ subkey ∈ subkeys, subkey.Live now → subkey.usable now = false → subkey.Capable →
    ∃ other ∈ subkeys, (other.usable now = true ∧ other.Capable) ∧ subkey.created ≤ other.created
  unflagged : ∀ subkey ∈ subkeys, subkey.Live now → subkey.usable now = false →
    subkey.Unflagged →
      (∃ other ∈ subkeys, other.usable now = true ∧ other.Capable) ∨
        ∃ other ∈ subkeys, (other.usable now = true ∧ other.Unflagged) ∧
          subkey.created ≤ other.created
  flagged : ∀ before subkey after, subkeys = before ++ subkey :: after →
    subkey.usable now = true → subkey.encrypts = true → ¬ subkey.Capable →
      Outdone (fun other => other.usable now = true ∧ other.Capable) subkeys before subkey
  signing : ∀ before subkey after, subkeys = before ++ subkey :: after →
    subkey.usable now = true → subkey.encrypts = false → ¬ subkey.Unflagged →
      (∃ other ∈ subkeys, other.usable now = true ∧ other.Capable) ∨
        Outdone (fun other => other.usable now = true ∧ other.Unflagged) subkeys before subkey

section Rule

variable {now : UInt32} {subkeys before after : List PgpPeerSubkey} {chosen : PgpPeerSubkey}

/-- Where the code finds a subkey that is flagged for encryption. -/
theorem rightChoice_flagged (hfirst : FirstNewest
      (fun subkey => (subkey.usable now && subkey.encrypts) = true) subkeys before after chosen) :
    RightChoice now subkeys (some chosen) ↔ Discerned now subkeys := by
  obtain ⟨husable, hencrypts⟩ := Bool.and_eq_true_iff.mp hfirst.of_kind
  constructor
  · intro hright
    have hnewest : IsNewest (fun subkey => subkey.Live now ∧ subkey.Capable) subkeys chosen := by
      cases hright with
      | capable h => exact h
      | unflagged _ h =>
          have hnot := h.2.1.2.not_encrypts
          rw [hencrypts] at hnot
          cases hnot
    obtain ⟨hmem, ⟨-, hcapable⟩, hle⟩ := hnewest
    refine ⟨fun subkey hsubkey hlive _ hsubkey' => ?_, fun subkey _ _ _ _ => ?_,
      fun before' subkey after' hsplit husable' hencrypts' hnot => ?_,
      fun _ subkey _ _ _ _ _ => ?_⟩
    · exact ⟨chosen, hmem, ⟨husable, hcapable⟩, hle subkey hsubkey ⟨hlive, hsubkey'⟩⟩
    · exact Or.inl ⟨chosen, hmem, husable, hcapable⟩
    · exact hfirst.outdone ⟨husable, hcapable⟩ hsplit (by rw [husable', hencrypts']; rfl)
        fun h => hnot h.2
    · exact Or.inl ⟨chosen, hmem, husable, hcapable⟩
  · intro hdiscerned
    have hcapable : chosen.Capable := by
      by_contra hnot
      refine hfirst.not_outdone (fun subkey h => ?_)
        (hdiscerned.flagged before chosen after hfirst.split husable hencrypts hnot)
      rw [h.1, h.2.1]
      rfl
    refine .capable ⟨hfirst.mem, ⟨PgpPeerSubkey.live_of_usable husable, hcapable⟩, ?_⟩
    rintro subkey hmem ⟨hlive, hsubkey⟩
    cases husable' : subkey.usable now with
    | true => exact hfirst.le hmem (by rw [husable', hsubkey.1]; rfl)
    | false =>
        obtain ⟨other, hother, ⟨hused, hable⟩, hle⟩ :=
          hdiscerned.capable subkey hmem hlive husable' hsubkey
        exact hle.trans (hfirst.le hother (by rw [hused, hable.1]; rfl))

/-- Where it falls back to any usable subkey. -/
theorem rightChoice_any
    (hnone : ∀ subkey ∈ subkeys, ¬ (subkey.usable now && subkey.encrypts) = true)
    (hfirst : FirstNewest (fun subkey => subkey.usable now = true) subkeys before after chosen) :
    RightChoice now subkeys (some chosen) ↔ Discerned now subkeys := by
  have hwithout : ¬ ∃ other ∈ subkeys, other.usable now = true ∧ other.Capable := by
    rintro ⟨other, hother, hused, hable⟩
    exact hnone other hother (by rw [hused, hable.1]; rfl)
  have hencrypts : chosen.encrypts = false := by
    have hchosen := hnone chosen hfirst.mem
    rw [hfirst.of_kind, Bool.true_and] at hchosen
    exact Bool.eq_false_of_not_eq_true hchosen
  constructor
  · intro hright
    obtain ⟨hlacking, hmem, ⟨-, hunflagged⟩, hle⟩ :
        (∀ subkey ∈ subkeys, subkey.Live now → ¬ subkey.Capable) ∧
          IsNewest (fun subkey => subkey.Live now ∧ subkey.Unflagged) subkeys chosen := by
      cases hright with
      | capable h =>
          have hable := h.2.1.2.1
          rw [hencrypts] at hable
          cases hable
      | unflagged hlacking h => exact ⟨hlacking, h⟩
    refine ⟨fun subkey hsubkey hlive _ hsubkey' => absurd hsubkey' (hlacking subkey hsubkey hlive),
      fun subkey hsubkey hlive _ hsubkey' => ?_,
      fun before' subkey after' hsplit husable' hencrypts' _ => ?_,
      fun before' subkey after' hsplit husable' _ hnot => ?_⟩
    · exact Or.inr ⟨chosen, hmem, ⟨hfirst.of_kind, hunflagged⟩, hle subkey hsubkey ⟨hlive, hsubkey'⟩⟩
    · refine absurd ?_ (hnone subkey (by rw [hsplit]; simp))
      rw [husable', hencrypts']
      rfl
    · exact Or.inr (hfirst.outdone ⟨hfirst.of_kind, hunflagged⟩ hsplit husable' fun h => hnot h.2)
  · intro hdiscerned
    have hunflagged : chosen.Unflagged := by
      by_contra hnot
      rcases hdiscerned.signing before chosen after hfirst.split hfirst.of_kind hencrypts hnot with
        hwith | houtdone
      · exact hwithout hwith
      · exact hfirst.not_outdone (fun subkey h => h.1) houtdone
    refine .unflagged (fun subkey hmem hlive hsubkey => ?_)
      ⟨hfirst.mem, ⟨PgpPeerSubkey.live_of_usable hfirst.of_kind, hunflagged⟩, ?_⟩
    · cases husable' : subkey.usable now with
      | true => exact hwithout ⟨subkey, hmem, husable', hsubkey⟩
      | false =>
          obtain ⟨other, hother, hkind, -⟩ := hdiscerned.capable subkey hmem hlive husable' hsubkey
          exact hwithout ⟨other, hother, hkind⟩
    · rintro subkey hmem ⟨hlive, hsubkey⟩
      cases husable' : subkey.usable now with
      | true => exact hfirst.le hmem husable'
      | false =>
          rcases hdiscerned.unflagged subkey hmem hlive husable' hsubkey with
            hwith | ⟨other, hother, ⟨hused, -⟩, hle⟩
          · exact absurd hwith hwithout
          · exact hle.trans (hfirst.le hother hused)

/-- Where it finds none. -/
theorem rightChoice_nothing (hnone : ∀ subkey ∈ subkeys, subkey.usable now = false) :
    RightChoice now subkeys none ↔ Discerned now subkeys := by
  have hunused {kind : PgpPeerSubkey → Prop} {other : PgpPeerSubkey} (hother : other ∈ subkeys)
      (h : other.usable now = true ∧ kind other) : False := by
    rw [hnone other hother] at h
    cases h.1
  constructor
  · rintro ⟨⟩
    rename_i hlacking
    refine ⟨fun subkey hmem hlive _ h => absurd h (hlacking subkey hmem hlive).1,
      fun subkey hmem hlive _ h => absurd h (hlacking subkey hmem hlive).2,
      fun before subkey after hsplit husable _ _ => ?_,
      fun before subkey after hsplit husable _ _ => ?_⟩
    all_goals
      rw [hnone subkey (by rw [hsplit]; simp)] at husable
      cases husable
  · intro hdiscerned
    refine .nothing fun subkey hmem hlive => ⟨fun h => ?_, fun h => ?_⟩
    · obtain ⟨other, hother, hkind, -⟩ :=
        hdiscerned.capable subkey hmem hlive (hnone subkey hmem) h
      exact hunused hother hkind
    · rcases hdiscerned.unflagged subkey hmem hlive (hnone subkey hmem) h with
        ⟨other, hother, hkind⟩ | ⟨other, hother, hkind, -⟩
      · exact hunused hother hkind
      · exact hunused hother hkind

end Rule

/-- The choice follows the rule exactly where what it overlooks and what it falls back to
make no difference. -/
theorem chooseBest_right_iff (now : UInt32) (subkeys : List PgpPeerSubkey) :
    RightChoice now subkeys (chooseBestPeerEncryptionSubkey now subkeys) ↔
      Discerned now subkeys := by
  rw [chooseBestPeerEncryptionSubkey_eq]
  cases hflagged : newest (subkeys.filter fun subkey => subkey.usable now && subkey.encrypts) with
  | some chosen =>
      obtain ⟨before, after, hfirst⟩ := firstNewest_of_newest hflagged
      exact rightChoice_flagged hfirst
  | none =>
      rw [newest_eq_none, List.filter_eq_nil_iff] at hflagged
      rw [Option.none_or]
      cases hany : newest (subkeys.filter (PgpPeerSubkey.usable now)) with
      | some chosen =>
          obtain ⟨before, after, hfirst⟩ := firstNewest_of_newest hany
          exact rightChoice_any hflagged hfirst
      | none =>
          rw [newest_eq_none, List.filter_eq_nil_iff] at hany
          exact rightChoice_nothing fun subkey hmem => Bool.eq_false_of_not_eq_true (hany subkey hmem)

/-- A subkey that is known to sign only. -/
def signingSubkey : PgpPeerSubkey where
  creationTime := 1000
  haveKeyFlags := true
  keyFlags := 2

/-- A subkey that encrypts, and whose expiration lies behind the end of 32-bit time. -/
def farSubkey : PgpPeerSubkey where
  creationTime := 0x68000000
  haveKeyFlags := true
  keyFlags := 12
  haveExpiration := true
  expirationSeconds := 0xA0000000

/-- A subkey that only signs is chosen; and one that encrypts is taken for expired. -/
theorem chooseBest_wrong :
    ¬ RightChoice 2000 [signingSubkey]
        (chooseBestPeerEncryptionSubkey 2000 [signingSubkey]) ∧
      ¬ RightChoice 0x6A000000 [farSubkey]
        (chooseBestPeerEncryptionSubkey 0x6A000000 [farSubkey]) := by
  constructor
  · rw [show chooseBestPeerEncryptionSubkey 2000 [signingSubkey] = some signingSubkey by
      decide]
    rintro (⟨-, ⟨-, h⟩, -⟩ | ⟨-, -, ⟨-, h⟩, -⟩)
    · exact absurd h.1 (by decide)
    · exact absurd h.1 (by decide)
  · rw [show chooseBestPeerEncryptionSubkey 0x6A000000 [farSubkey] = none by decide]
    rintro ⟨⟩
    rename_i h
    exact (h farSubkey (by simp) ⟨rfl, fun hexpires => absurd hexpires.2.2 (by decide)⟩).1
      ⟨by decide, rfl⟩

end HashCryptoLib.Pgp
