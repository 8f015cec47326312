import CScript.Runtime.Value
import Mathlib.Logic.Relation

/-!
# Subtyping against the runtime's shape test

`isSubtype` decides what the checker lets flow where; `valueMatchesType` decides what a
value is at run time. Width subtyping lets a value carry keys that its static type does not
declare, and such a key can reach a type that does look at it. This module says under which
reading of a value the two tests agree.
-/

namespace CScript

namespace Ty

/-- `Child s t`: `s` is an immediate part of `t`. -/
inductive Child : Ty → Ty → Prop
  | optional (a : Ty) : Child a (.optional a)
  | list (a : Ty) : Child a (.list a)
  | tuple {a : Ty} {as : List Ty} : a ∈ as → Child a (.tuple as)
  | param {a : Ty} {as : List Ty} {r : Ty} : a ∈ as → Child a (.function as r)
  | ret (as : List Ty) (r : Ty) : Child r (.function as r)
  | field {n : Option String} {f : FieldType} {fs : List FieldType} :
      f ∈ fs → Child f.ty (.struct n fs)
  | ok (a b : Ty) : Child a (.resultOf a b)
  | err (a b : Ty) : Child b (.resultOf a b)
  | patchOf (a : Ty) : Child a (.patchOf a)
  | key (k a : Ty) : Child k (.mapOf k a)
  | val (k a : Ty) : Child a (.mapOf k a)
  | arg {n : String} {a : Ty} {as : List Ty} : a ∈ as → Child a (.generic n as)
  | member {a : Ty} {as : List Ty} : a ∈ as → Child a (.union as)
  | collection (a : Ty) : Child a (.dbCollection a)
  | query (a : Ty) : Child a (.dbQuery a)

/-- `s` occurs somewhere in `t`. -/
abbrev Within : Ty → Ty → Prop := Relation.ReflTransGen Child

def DynamicFree (t : Ty) : Prop := ¬Within .dynamic t

/-- The keys that the shape test for `t` can look at: those its structs declare, and every
key once `t` mentions a patch. -/
def Sees (t : Ty) (key : String) : Prop :=
  (∃ n fs, Within (.struct n fs) t ∧ (fieldNamed fs key).isSome = true) ∨
    ∃ inner, Within (.patchOf inner) t

/-- Every patch type in `t` declares the fields of every patch type in `s`. The
`Patch`/`Patch` arm of `isSubtype` compares the two structs by width and asks for less. -/
def PatchesCover (s t : Ty) : Prop :=
  ∀ a b, Within (.patchOf a) s → Within (.patchOf b) t → a = b ∨
    ∀ n fs, a = .struct n fs →
      ∃ m gs, b = .struct m gs ∧ ∀ k, (fieldNamed fs k).isSome = true → (fieldNamed gs k).isSome = true

theorem DynamicFree.child {s t : Ty} (h : DynamicFree t) (hc : Child s t) : DynamicFree s :=
  fun hw => h (hw.tail hc)

theorem Sees.child {s t : Ty} {key : String} (h : Sees s key) (hc : Child s t) : Sees t key := by
  rcases h with ⟨n, fs, hw, hk⟩ | ⟨inner, hw⟩
  · exact .inl ⟨n, fs, hw.tail hc, hk⟩
  · exact .inr ⟨inner, hw.tail hc⟩

theorem PatchesCover.mono {s t s' t' : Ty} (h : PatchesCover s t) (hs : Within s' s)
    (ht : Within t' t) : PatchesCover s' t' :=
  fun a b ha hb => h a b (ha.trans hs) (hb.trans ht)

theorem PatchesCover.null_right (s : Ty) : PatchesCover s .null := by
  intro a b _ hb
  cases hb with
  | tail _ hc => cases hc

/-- The types whose shape test does not descend into a declared structure. -/
def isAtom : Ty → Bool
  | .optional _ | .list _ | .tuple _ | .mapOf _ _ | .struct _ _ | .patchOf _ | .union _ => false
  | _ => true

end Ty

/-- `v` has type `ty`, and at every struct position of `ty` it carries no key that is `seen`
and that the struct leaves undeclared. -/
inductive MatchesDeclared (checker : Checker) (seen : String → Prop) : Value → Ty → Prop
  | atom {v : Value} {ty : Ty} : ty.isAtom = true → valueMatchesType checker v ty = true →
      MatchesDeclared checker seen v ty
  | null (t : Ty) : MatchesDeclared checker seen .null (.optional t)
  | optional {v : Value} {t : Ty} : MatchesDeclared checker seen v t →
      MatchesDeclared checker seen v (.optional t)
  | list {items : List Value} {t : Ty} : (∀ i ∈ items, MatchesDeclared checker seen i t) →
      MatchesDeclared checker seen (.list items) (.list t)
  | tuple {items : List Value} {tys : List Ty} : items.length = tys.length →
      (∀ p ∈ items.zip tys, MatchesDeclared checker seen p.1 p.2) →
      MatchesDeclared checker seen (.tuple items) (.tuple tys)
  | mapOf {entries : List (String × Value)} {k t : Ty} :
      (∀ e ∈ entries, MatchesDeclared checker seen e.2 t) →
      MatchesDeclared checker seen (.struct entries) (.mapOf k t)
  | struct {entries : List (String × Value)} {n : Option String} {fields : List FieldType} :
      (∀ f ∈ fields, entryNamed entries f.name = none → f.optional = true) →
      (∀ f ∈ fields, ∀ fv, entryNamed entries f.name = some fv →
        MatchesDeclared checker seen fv f.ty) →
      (∀ e ∈ entries, seen e.1 → (fieldNamed fields e.1).isSome = true) →
      (∀ e ∈ entries, ∀ f, seen e.1 → fieldNamed fields e.1 = some f →
        MatchesDeclared checker seen e.2 f.ty) →
      MatchesDeclared checker seen (.struct entries) (.struct n fields)
  | patchOf {entries : List (String × Value)} {n : Option String} {fields : List FieldType} :
      (∀ e ∈ entries, (fieldNamed fields e.1).isSome = true) →
      (∀ e ∈ entries, ∀ f, fieldNamed fields e.1 = some f →
        MatchesDeclared checker seen e.2 f.ty) →
      MatchesDeclared checker seen (.struct entries) (.patchOf (.struct n fields))
  | union {v : Value} {m : Ty} {members : List Ty} : m ∈ members →
      MatchesDeclared checker seen v m → MatchesDeclared checker seen v (.union members)

variable {checker : Checker} {seen seen' : String → Prop} {v : Value} {ty : Ty}

/-- The refined reading only adds the condition on stray keys. -/
theorem MatchesDeclared.matches (h : MatchesDeclared checker seen v ty) :
    valueMatchesType checker v ty = true := by
  induction h with
  | atom _ hv => exact hv
  | null t => exact matches_optional.2 (.inl rfl)
  | optional _ ih => exact matches_optional.2 (.inr ih)
  | list _ ih => exact matches_list.2 ⟨_, rfl, ih⟩
  | tuple hlen _ ih => exact matches_tuple.2 ⟨_, rfl, hlen, ih⟩
  | mapOf _ ih => exact matches_mapOf.2 ⟨_, rfl, ih⟩
  | struct hopt _ _ _ ih =>
      exact matches_struct.2 ⟨_, rfl, structMatchesFields_iff.2 fun f hf => ⟨ih f hf, hopt f hf⟩⟩
  | patchOf hdecl _ ih =>
      refine matches_patchOf.2 ⟨_, _, _, rfl, rfl, fun e he => ?_⟩
      obtain ⟨f, hf⟩ := Option.isSome_iff_exists.1 (hdecl e he)
      exact ⟨f, hf, ih e he f hf⟩
  | union hm _ ih => exact matches_union.2 ⟨_, hm, ih⟩

/-- Fewer keys to look at ask less of the value. -/
theorem MatchesDeclared.anti (h : MatchesDeclared checker seen v ty)
    (hseen : ∀ k, seen' k → seen k) : MatchesDeclared checker seen' v ty := by
  induction h with
  | atom ha hv => exact .atom ha hv
  | null t => exact .null t
  | optional _ ih => exact .optional ih
  | list _ ih => exact .list ih
  | tuple hlen _ ih => exact .tuple hlen ih
  | mapOf _ ih => exact .mapOf ih
  | struct hopt _ hdecl _ ihf ihe =>
      exact .struct hopt ihf (fun e he hs => hdecl e he (hseen _ hs))
        (fun e he f hs hf => ihe e he f (hseen _ hs) hf)
  | patchOf hdecl _ ih => exact .patchOf hdecl ih
  | union hm _ ih => exact .union hm ih

/-- Every value of `s`, read without stray keys that `t` looks at, is a value of `t`. -/
def Ty.Sound (checker : Checker) (s t : Ty) : Prop :=
  ∀ v, MatchesDeclared checker t.Sees v s → valueMatchesType checker v t = true

/-- The fields that two structs have in common are related pairwise. -/
def Ty.FieldsSound (checker : Checker) (s t : Ty) : Prop :=
  ∀ n fs m gs, s = .struct n fs → t = .struct m gs → ∀ k f g,
    fieldNamed fs k = some f → fieldNamed gs k = some g → Ty.Sound checker f.ty g.ty

theorem Ty.Sound.refl (t : Ty) : Ty.Sound checker t t := fun _ h => h.matches

theorem Ty.FieldsSound.of_right {s t : Ty} (h : ∀ m gs, t ≠ .struct m gs) :
    Ty.FieldsSound checker s t :=
  fun _ _ m gs _ heq => absurd heq (h m gs)

theorem Ty.FieldsSound.of_left {s t : Ty} (h : ∀ n fs, s ≠ .struct n fs) :
    Ty.FieldsSound checker s t :=
  fun n fs _ _ heq => absurd heq (h n fs)

/-- Soundness for a part of each side carries to a value read for the whole. -/
theorem Ty.Sound.apply {s t u : Ty} (h : Ty.Sound checker s t) (hchild : Ty.Child t u)
    (hv : MatchesDeclared checker u.Sees v s) : valueMatchesType checker v t = true :=
  h v (hv.anti fun _ hk => hk.child hchild)

/-- Related positions of two lists meet at the position between them. -/
theorem exists_between_zip {α β γ : Type} {xs : List α} {ys : List β} {zs : List γ}
    (hxy : xs.length = ys.length) (hyz : ys.length = zs.length) {q : α × γ}
    (hq : q ∈ xs.zip zs) : ∃ y, (q.1, y) ∈ xs.zip ys ∧ (y, q.2) ∈ ys.zip zs := by
  obtain ⟨i, hi, rfl⟩ := List.mem_iff_getElem.1 hq
  rw [List.length_zip] at hi
  have hix : i < xs.length := by omega
  have hiy : i < ys.length := by omega
  have hiz : i < zs.length := by omega
  refine ⟨ys[i], ?_, ?_⟩
  · exact List.mem_iff_getElem.2 ⟨i, by rw [List.length_zip]; omega, by simp⟩
  · exact List.mem_iff_getElem.2 ⟨i, by rw [List.length_zip]; omega, by simp⟩

namespace Ty

variable {n m : Option String} {fs gs : List FieldType}

/-- The struct arm. A key of the value that `fs` leaves undeclared but `gs` declares would
reach the test of `gs` unchecked; the reading of the value rules it out. -/
theorem struct_sound
    (hfield : ∀ g ∈ gs, ∀ f, fieldNamed fs g.name = some f →
      (f.optional = true → g.optional = true) ∧ Sound checker f.ty g.ty)
    (habsent : ∀ g ∈ gs, fieldNamed fs g.name = none → g.optional = true) :
    Sound checker (.struct n fs) (.struct m gs) := by
  intro v hv
  cases hv with
  | atom ha _ => cases ha
  | @struct entries _ _ hopt hvals hdecl _ =>
      refine matches_struct.2 ⟨entries, rfl, structMatchesFields_iff.2 fun g hg => ?_⟩
      cases hf : fieldNamed fs g.name with
      | some f =>
          have hname := name_of_fieldNamed hf
          refine ⟨fun fv hfv => ?_, fun hnone => ?_⟩
          · refine (hfield g hg f hf).2.apply (.field (n := m) hg) ?_
            exact hvals f (mem_of_fieldNamed hf) fv (by rw [hname, hfv])
          · refine (hfield g hg f hf).1 ?_
            exact hopt f (mem_of_fieldNamed hf) (by rw [hname, hnone])
      | none =>
          refine ⟨fun fv hfv => ?_, fun _ => habsent g hg hf⟩
          have hsees : Sees (.struct m gs) g.name :=
            .inl ⟨m, gs, .refl, fieldNamed_isSome_of_mem hg⟩
          have hsome := hdecl _ (mem_of_entryNamed hfv) hsees
          rw [hf] at hsome
          cases hsome

/-- A patch looks at every key, so a struct flows into it only through declared ones. -/
theorem struct_patch_sound
    (hfield : ∀ f ∈ fs, ∃ g, fieldNamed gs f.name = some g ∧
      (Sound checker f.ty g.ty ∨ (∃ a, g.ty = .optional a) ∧ Sound checker f.ty .null)) :
    Sound checker (.struct n fs) (.patchOf (.struct m gs)) := by
  intro v hv
  have hall : ∀ k, Sees (.patchOf (.struct m gs)) k := fun _ => .inr ⟨_, .refl⟩
  cases hv with
  | atom ha _ => cases ha
  | @struct entries _ _ _ _ hdecl hvals =>
      refine matches_patchOf.2 ⟨entries, m, gs, rfl, rfl, fun e he => ?_⟩
      obtain ⟨f, hf⟩ := Option.isSome_iff_exists.1 (hdecl e he (hall e.1))
      have hv := hvals e he f (hall e.1) hf
      obtain ⟨g, hg, hsound⟩ := hfield f (mem_of_fieldNamed hf)
      rw [name_of_fieldNamed hf] at hg
      refine ⟨g, hg, ?_⟩
      rcases hsound with hsound | ⟨⟨a, hty⟩, hnull⟩
      · exact hsound _ (hv.anti fun k _ => hall k)
      · rw [hty]
        exact matches_optional.2 (.inl (matches_null.1 (hnull _ (hv.anti fun k _ => hall k))))

theorem patch_sound (hfields : FieldsSound checker (.struct n fs) (.struct m gs))
    (hnames : ∀ k, (fieldNamed fs k).isSome = true → (fieldNamed gs k).isSome = true) :
    Sound checker (.patchOf (.struct n fs)) (.patchOf (.struct m gs)) := by
  intro v hv
  cases hv with
  | atom ha _ => cases ha
  | @patchOf entries _ _ hdecl hvals =>
      refine matches_patchOf.2 ⟨entries, m, gs, rfl, rfl, fun e he => ?_⟩
      obtain ⟨f, hf⟩ := Option.isSome_iff_exists.1 (hdecl e he)
      obtain ⟨g, hg⟩ := Option.isSome_iff_exists.1 (hnames e.1 (hdecl e he))
      refine ⟨g, hg, ?_⟩
      refine hfields n fs m gs rfl rfl e.1 f g hf hg e.2 ?_
      exact (hvals e he f hf).anti fun k _ => .inr ⟨_, .refl⟩

/-- Tuples are related position by position. -/
theorem tuple_sound {as bs : List Ty} (hlen : as.length = bs.length)
    (h : ∀ p ∈ as.zip bs, Sound checker p.1 p.2) :
    Sound checker (.tuple as) (.tuple bs) := by
  intro v hv
  cases hv with
  | atom ha _ => cases ha
  | @tuple items _ hitems hvals =>
      refine matches_tuple.2 ⟨items, rfl, hitems.trans hlen, fun q hq => ?_⟩
      obtain ⟨a, hva, hab⟩ := exists_between_zip hitems hlen hq
      exact (h _ hab).apply (.tuple (List.of_mem_zip hab).2) (hvals (q.1, a) hva)

end Ty

open Ty in
theorem isSubtype_sound (s t : Ty) (hsub : isSubtype s t = true) (hdyn : s.DynamicFree)
    (hpatch : PatchesCover s t) : Sound checker s t ∧ FieldsSound checker s t := by
  induction s, t using isSubtype.induct with
  | case1 t =>
      refine ⟨Sound.refl t, ?_⟩
      rintro n fs m gs rfl heq k f g hf hg
      cases heq
      rw [hf] at hg
      cases hg
      exact Sound.refl f.ty
  | case2 t hne => exact absurd .refl hdyn
  | case3 s hs hne =>
      exact ⟨fun v _ => by simp [valueMatchesType], .of_right (by simp)⟩
  | case4 inner hne =>
      refine ⟨fun v hv => ?_, .of_right (by simp)⟩
      exact matches_optional.2 (.inl (matches_null.1 hv.matches))
  | case5 a b hne ih =>
      rw [isSubtype, if_neg hne] at hsub
      refine ⟨fun v hv => ?_, .of_right (by simp)⟩
      have hsound := (ih hsub (hdyn.child (.optional a))
        (hpatch.mono (.single (.optional a)) (.single (.optional b)))).1
      cases hv with
      | atom ha _ => cases ha
      | null => exact matches_optional.2 (.inl rfl)
      | optional hv => exact matches_optional.2 (.inr (hsound.apply (.optional b) hv))
  | case6 a b h1 h2 h3 hne ih =>
      rw [isSubtype, if_neg hne] at hsub <;> try assumption
      refine ⟨fun v hv => ?_, .of_right (by simp)⟩
      have hsound := (ih hsub hdyn (hpatch.mono .refl (.single (.optional b)))).1
      exact matches_optional.2 (.inr (hsound.apply (.optional b) hv))
  | case7 a b hne ih =>
      rw [isSubtype, if_neg hne] at hsub
      refine ⟨fun v hv => ?_, .of_right (by simp)⟩
      have hsound := (ih hsub (hdyn.child (.list a))
        (hpatch.mono (.single (.list a)) (.single (.list b)))).1
      cases hv with
      | atom ha _ => cases ha
      | list hitems =>
          exact matches_list.2 ⟨_, rfl, fun i hi => hsound.apply (.list b) (hitems i hi)⟩
  | case8 as bs hne ih =>
      rw [isSubtype, if_neg hne] at hsub
      simp only [Bool.and_eq_true, beq_iff_eq, List.all_eq_true, List.mem_attach, true_imp_iff,
        Subtype.forall] at hsub
      refine ⟨tuple_sound hsub.1 fun p hp => ?_, .of_right (by simp)⟩
      have hmem := List.of_mem_zip hp
      exact (ih p hp (hsub.2 p hp) (hdyn.child (.tuple hmem.1))
        (hpatch.mono (.single (.tuple hmem.1)) (.single (.tuple hmem.2)))).1
  | case9 a₁ b₁ a₂ b₂ hne ih₁ ih₂ =>
      refine ⟨fun v hv => ?_, .of_right (by simp)⟩
      exact matches_resultOf.2 (matches_resultOf.1 hv.matches)
  | case10 a b hne ih =>
      rw [isSubtype, if_neg hne] at hsub
      refine ⟨fun v hv => ?_, .of_right (by simp)⟩
      obtain ⟨entries, n, fs, rfl, rfl, -⟩ := matches_patchOf.1 hv.matches
      rcases hpatch _ _ .refl .refl with heq | hcover
      · exact absurd (congrArg Ty.patchOf heq) hne
      · obtain ⟨m, gs, rfl, hnames⟩ := hcover n fs rfl
        have hfields := (ih hsub (hdyn.child (.patchOf _))
          (hpatch.mono (.single (.patchOf _)) (.single (.patchOf _)))).2
        exact patch_sound hfields hnames _ hv
  | case11 n fs m gs hne ih ihNull =>
      rw [isSubtype, if_neg hne] at hsub
      simp only [List.all_eq_true, List.mem_attach, true_imp_iff, Subtype.forall] at hsub
      refine ⟨struct_patch_sound fun f hf => ?_, .of_right (by simp)⟩
      have harm := hsub f hf
      have hdynf := hdyn.child (.field (n := n) hf)
      split at harm
      · rename_i g hg
        refine ⟨g, hg, ?_⟩
        rw [Bool.or_eq_true, Bool.and_eq_true] at harm
        rcases harm with hsub | ⟨hopt, hsub⟩
        · have hin : Within g.ty (.patchOf (.struct m gs)) :=
            .tail (.single (.field (mem_of_fieldNamed hg))) (.patchOf _)
          exact .inl (ih f hf g hg hsub hdynf (hpatch.mono (.single (.field hf)) hin)).1
        · refine .inr ⟨?_, (ihNull f hf g hg hsub hdynf (.null_right f.ty)).1⟩
          split at hopt
          · exact ⟨_, ‹_›⟩
          · cases hopt
      · cases harm
  | case12 n fs inner h hne =>
      rw [isSubtype, if_neg hne] at hsub <;> try assumption
      cases hsub
  | case13 k₁ v₁ k₂ v₂ hne ihk ihv =>
      rw [isSubtype, if_neg hne] at hsub
      simp only [Bool.and_eq_true] at hsub
      refine ⟨fun v hv => ?_, .of_right (by simp)⟩
      have hsound := (ihv hsub.2 (hdyn.child (.val k₁ v₁))
        (hpatch.mono (.single (.val k₁ v₁)) (.single (.val k₂ v₂)))).1
      cases hv with
      | atom ha _ => cases ha
      | mapOf hentries =>
          exact matches_mapOf.2 ⟨_, rfl, fun e he => hsound.apply (.val k₂ v₂) (hentries e he)⟩
  | case14 p₁ r₁ p₂ r₂ hne ihp ihr =>
      refine ⟨fun v hv => ?_, .of_right (by simp)⟩
      have hmatch := hv.matches
      simp [valueMatchesType] at hmatch
  | case15 n fs m gs hne ih =>
      rw [isSubtype, if_neg hne] at hsub
      simp only [List.all_eq_true, List.mem_attach, true_imp_iff, Subtype.forall] at hsub
      have hfield : ∀ g ∈ gs, ∀ f, fieldNamed fs g.name = some f →
          (f.optional = true → g.optional = true) ∧ Sound checker f.ty g.ty := by
        intro g hg f hf
        have harm := hsub g hg
        split at harm
        · rename_i f' hf'
          rw [hf] at hf'
          cases hf'
          simp only [Bool.and_eq_true, Bool.or_eq_true, Bool.not_eq_true'] at harm
          refine ⟨fun hopt => harm.1.resolve_right (by simp [hopt]), ?_⟩
          exact (ih g hg f hf harm.2 (hdyn.child (.field (mem_of_fieldNamed hf)))
            (hpatch.mono (.single (.field (mem_of_fieldNamed hf))) (.single (.field hg)))).1
        · rename_i hnone
          rw [hf] at hnone
          cases hnone
      have habsent : ∀ g ∈ gs, fieldNamed fs g.name = none → g.optional = true := by
        intro g hg hnone
        have harm := hsub g hg
        split at harm
        · rename_i f hf
          rw [hnone] at hf
          cases hf
        · exact harm
      refine ⟨struct_sound hfield habsent, ?_⟩
      rintro n' fs' m' gs' heq heq' k f g hf hg
      cases heq
      cases heq'
      refine (hfield g (mem_of_fieldNamed hg) f ?_).2
      rw [name_of_fieldNamed hg, hf]
  | case16 members t h1 h2 hne ih =>
      rw [isSubtype, if_neg hne] at hsub <;> try assumption
      simp only [List.all_eq_true, List.mem_attach, true_imp_iff, Subtype.forall] at hsub
      refine ⟨fun v hv => ?_, .of_left (by simp)⟩
      cases hv with
      | atom ha _ => cases ha
      | union hm hv =>
          have hpart := Ty.Child.member hm
          exact (ih _ hm (hsub _ hm) (hdyn.child hpart) (hpatch.mono (.single hpart) .refl)).1 _ hv
  | case17 s members h1 h2 hne ih =>
      rw [isSubtype, if_neg hne] at hsub <;> try assumption
      simp only [List.any_eq_true, List.mem_attach, true_and, Subtype.exists] at hsub
      obtain ⟨m, hm, harm⟩ := hsub
      refine ⟨fun v hv => ?_, .of_right (by simp)⟩
      have hsound := (ih m hm harm hdyn (hpatch.mono .refl (.single (.member hm)))).1
      exact matches_union.2 ⟨m, hm, hsound.apply (.member hm) hv⟩
  | case18 s t hne =>
      rw [isSubtype, if_neg hne] at hsub <;> try assumption
      cases hsub

/-- With no key looked at, the refined reading is the plain shape test. -/
theorem matchesDeclared_of_matches (v : Value) (ty : Ty)
    (h : valueMatchesType checker v ty = true) :
    MatchesDeclared checker (fun _ => False) v ty := by
  cases ty with
  | optional t =>
      rcases matches_optional.1 h with rfl | h
      · exact .null t
      · exact .optional (matchesDeclared_of_matches v t h)
  | list t =>
      obtain ⟨items, rfl, hitems⟩ := matches_list.1 h
      exact .list fun i hi => matchesDeclared_of_matches i t (hitems i hi)
  | tuple tys =>
      obtain ⟨items, rfl, hlen, hitems⟩ := matches_tuple.1 h
      exact .tuple hlen fun p hp => matchesDeclared_of_matches p.1 p.2 (hitems p hp)
  | mapOf k t =>
      obtain ⟨entries, rfl, hentries⟩ := matches_mapOf.1 h
      exact .mapOf fun e he => matchesDeclared_of_matches e.2 t (hentries e he)
  | struct n fields =>
      obtain ⟨entries, rfl, hfields⟩ := matches_struct.1 h
      have hfields := structMatchesFields_iff.1 hfields
      exact .struct (fun f hf => (hfields f hf).2)
        (fun f hf fv hfv => matchesDeclared_of_matches fv f.ty ((hfields f hf).1 fv hfv))
        (fun _ _ hs => hs.elim) (fun _ _ _ hs => hs.elim)
  | patchOf inner =>
      obtain ⟨entries, n, fields, rfl, rfl, hentries⟩ := matches_patchOf.1 h
      refine .patchOf (fun e he => ?_) (fun e he f hf => ?_)
      · obtain ⟨f, hf, -⟩ := hentries e he
        exact Option.isSome_iff_exists.2 ⟨f, hf⟩
      · obtain ⟨f', hf', hv⟩ := hentries e he
        rw [hf] at hf'
        cases hf'
        exact matchesDeclared_of_matches e.2 f.ty hv
  | union members =>
      obtain ⟨m, hm, hv⟩ := matches_union.1 h
      exact .union hm (matchesDeclared_of_matches v m hv)
  | _ => exact .atom rfl h
termination_by (sizeOf v, sizeOf ty)
decreasing_by
  all_goals subst_vars
  all_goals simp_wf
  all_goals first
    | omega
    | (have hlt := List.sizeOf_lt_of_mem ‹_ ∈ _›; omega)
    | (have hlt := List.sizeOf_lt_of_mem (List.of_mem_zip ‹_ ∈ List.zip _ _›).1; omega)
    | (have hlt := sizeOf_entry_lt (mem_of_entryNamed ‹_›); omega)
    | (have hlt := sizeOf_entry_lt ‹_ ∈ _›; omega)

/-- A type that mentions neither a struct nor a patch looks at no key, and then subtyping
is sound for the plain shape test. -/
theorem isSubtype_sound_of_no_keys {s t : Ty} (hsub : isSubtype s t = true)
    (hdyn : s.DynamicFree) (hpatch : s.PatchesCover t) (hkeys : ∀ k, ¬t.Sees k)
    (hv : valueMatchesType checker v s = true) : valueMatchesType checker v t = true :=
  (isSubtype_sound s t hsub hdyn hpatch).1 v
    ((matchesDeclared_of_matches v s hv).anti hkeys)

theorem Ty.not_within_of_children {s t : Ty} (hne : s ≠ t)
    (h : ∀ u, Ty.Child u t → ¬Ty.Within s u) : ¬Ty.Within s t := by
  intro hw
  cases hw with
  | refl => exact hne rfl
  | tail hw hc => exact h _ hc hw

/-- The test's own case: `{x}` is a subtype of `{x, y?}`, since `y` may be absent. -/
def exactPoint : Ty := .struct none [⟨"x", false, .int⟩]

def labelledPoint : Ty := .struct none [⟨"x", false, .int⟩, ⟨"y", true, .string⟩]

/-- A point that carries, under width subtyping, a key `y` of another type. -/
def widePoint : Value := .struct [("x", .int (.ofInt 1 Lib.inRange_one)), ("y", .bool true)]

end CScript
