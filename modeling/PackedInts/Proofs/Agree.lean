import Mathlib

/-!
# Outcomes that agree

Where one thing is done twice, on two states that need not be the same, the two outcomes are compared
as a whole: what comes of it is the same, and the states that are left are related again.

* `Agree` -- two outcomes that are the same, but for the related states that they leave;
* `AgreeVia` -- the same, where what comes of the one is a reading of what comes of the other.
-/

namespace PackedInts

variable {α β σ τ : Type} {R : σ → τ → Prop}

/-- **Two outcomes agree**: they are the same, but for the states that they leave, and these are
    related. -/
def Agree (R : σ → τ → Prop) (x : α × σ) (y : α × τ) : Prop :=
  ∃ a s t, x = (a, s) ∧ y = (a, t) ∧ R s t

theorem Agree.intro {s : σ} {t : τ} (a : α) (h : R s t) : Agree R (a, s) (a, t) :=
  ⟨a, s, t, rfl, rfl, h⟩

/-- **Two outcomes agree by a reading**: the first is the second read by `f`, but for the states that
    they leave, and these are related. -/
def AgreeVia (f : β → α) (R : σ → τ → Prop) (x : α × σ) (y : β × τ) : Prop :=
  ∃ b s t, x = (f b, s) ∧ y = (b, t) ∧ R s t

theorem AgreeVia.intro {s : σ} {t : τ} (f : β → α) (b : β) (h : R s t) :
    AgreeVia f R (f b, s) (b, t) :=
  ⟨b, s, t, rfl, rfl, h⟩

end PackedInts
