/-
How often a detector is asked.

A detector is asked until an answer is accepted, but not more often than there are attempts.  Here it
gives the answers of a sequence, one after the other, and counts them.

* `replay` — such a detector;
* `Accepts`, `Refuses` — an answer and the boxes in it, or what is wrong with it in words;
* `Detection` — what becomes of a sequence of answers, and how many of them are asked for;
* `SketchOutcome` — what becomes of a sketch for which the detector answers so;
* `detectWithin_accepted`, `detectWithin_refused` — any number of attempts, after any number of
  answers;
* `outcomes_of_answers` — both outcomes, for all sequences of answers.

Design notes:
* which images are recognised, and in which words a text is refused that is no JSON, is left to
  libraries, whatever they are.
-/
import Wireframe.PlainLibraries
import Wireframe.Proofs.Sketch.Reading
import Wireframe.Sketch.Detection

namespace Wireframe.Sketch

open Design

/-- What a detector may answer. -/
abbrev Answer := Except DetectorError String

/-- A detector that gives the answers of a sequence and counts how many it has given. -/
def replay (answers : Nat → Answer) : Detector (StateM Nat) :=
  modifyGet fun asked => (answers asked, asked + 1)

/-! ### Answers -/

/-- An answer with boxes that can be read from it. -/
def Accepts (answer : Answer) (boxes : List DetectedBox) : Prop :=
  ∃ text, answer = .ok text ∧ readPayload text = .ok boxes

/-- An answer that is none, or of which no boxes can be read, and what is wrong with it. -/
inductive Refuses (libraries : Libraries) : Answer → String → Prop
  | failed (failure : DetectorError) : Refuses libraries (.error failure) failure.message
  | unreadable {text : String} {problem : PayloadError} (h : readPayload text = .error problem) :
      Refuses libraries (.ok text) (problem.message libraries)

section Answers

variable {libraries : Libraries} {answers : Nat → Answer}

theorem judge_cases (answer : Answer) :
    (∃ boxes, judge libraries answer = .ok boxes ∧ Accepts answer boxes) ∨
      ∃ reason, judge libraries answer = .error reason ∧ Refuses libraries answer reason := by
  cases answer with
  | error failure => exact Or.inr ⟨failure.message, rfl, .failed failure⟩
  | ok text =>
    unfold judge
    cases hread : readPayload text with
    | error problem =>
      exact Or.inr ⟨problem.message libraries, by simp only [hread], .unreadable hread⟩
    | ok boxes => exact Or.inl ⟨boxes, by simp only [hread], text, rfl, hread⟩

theorem judge_of_accepts {answer : Answer} {boxes : List DetectedBox} (h : Accepts answer boxes) :
    judge libraries answer = .ok boxes := by
  obtain ⟨text, rfl, hread⟩ := h
  simp only [judge, hread]

/-- An answer that is not accepted is refused. -/
theorem refuses_of_not_accepts (libraries : Libraries) {answer : Answer}
    (h : ∀ boxes, ¬ Accepts answer boxes) :
    ∃ reason, judge libraries answer = .error reason ∧ Refuses libraries answer reason := by
  rcases judge_cases answer with ⟨boxes, -, haccepts⟩ | hrefuses
  · exact absurd haccepts (h boxes)
  · exact hrefuses

/-! ### Attempts -/

/-- One attempt: its answer ends the detection if it is accepted. -/
theorem detectWithin_succ (last : String) (left asked : Nat) :
    (detectWithin libraries (replay answers) last (left + 1)).run asked =
      match judge libraries (answers asked) with
      | .ok boxes => (.ok boxes, asked + 1)
      | .error reason => (detectWithin libraries (replay answers) reason left).run (asked + 1) := by
  show ((replay answers) >>= fun answer => match judge libraries answer with
    | .ok boxes => pure (.ok boxes)
    | .error reason => detectWithin libraries (replay answers) reason left).run asked = _
  rw [StateT.run_bind]
  show ((match judge libraries (answers asked) with
    | .ok boxes => pure (.ok boxes)
    | .error reason => detectWithin libraries (replay answers) reason left :
      StateM Nat (Except Failure (List DetectedBox))).run (asked + 1)) = _
  cases judge libraries (answers asked) <;> rfl

/-- The first answer that is accepted is the last one that is asked for. -/
theorem detectWithin_accepted {k left : Nat} (hk : k < left) {asked : Nat}
    {boxes : List DetectedBox} (haccepts : Accepts (answers (asked + k)) boxes)
    (hbefore : ∀ j < k, ∀ others, ¬ Accepts (answers (asked + j)) others) (last : String) :
    (detectWithin libraries (replay answers) last left).run asked = (.ok boxes, asked + k + 1) := by
  induction k generalizing left asked last with
  | zero =>
    obtain ⟨left, rfl⟩ := Nat.exists_eq_add_one_of_ne_zero (Nat.ne_zero_of_lt hk)
    rw [Nat.add_zero] at haccepts
    rw [detectWithin_succ, judge_of_accepts haccepts]
  | succ k ih =>
    obtain ⟨left, rfl⟩ := Nat.exists_eq_add_one_of_ne_zero (Nat.ne_zero_of_lt hk)
    obtain ⟨reason, hjudge, -⟩ :=
      refuses_of_not_accepts libraries (hbefore 0 (Nat.succ_pos k))
    -- the answers after the first one are those of a detector that has been asked once more
    have hshift (j : Nat) : asked + (j + 1) = asked + 1 + j := by omega
    rw [Nat.add_zero] at hjudge
    rw [detectWithin_succ, hjudge, hshift k]
    refine ih (Nat.lt_of_succ_lt_succ hk) (hshift k ▸ haccepts) ?_ reason
    intro j hj others
    exact hshift j ▸ hbefore (j + 1) (Nat.succ_lt_succ hj) others

/-- Without an answer that is accepted the reason is that of the last one. -/
theorem detectWithin_refused (libraries : Libraries) {left asked : Nat}
    (h : ∀ j ≤ left, ∀ boxes, ¬ Accepts (answers (asked + j)) boxes) (last : String) :
    ∃ reason, Refuses libraries (answers (asked + left)) reason ∧
      (detectWithin libraries (replay answers) last (left + 1)).run asked =
        (.error (.detectionExhausted attempts reason), asked + left + 1) := by
  induction left generalizing asked last with
  | zero =>
    obtain ⟨reason, hjudge, hrefuses⟩ := refuses_of_not_accepts libraries (h 0 (Nat.le_refl 0))
    refine ⟨reason, hrefuses, ?_⟩
    rw [Nat.add_zero] at hjudge
    rw [detectWithin_succ, hjudge]
    rfl
  | succ left ih =>
    obtain ⟨reason, hjudge, -⟩ := refuses_of_not_accepts libraries (h 0 (Nat.zero_le _))
    have hshift (j : Nat) : asked + (j + 1) = asked + 1 + j := by omega
    rw [Nat.add_zero] at hjudge
    rw [detectWithin_succ, hjudge, hshift left]
    refine ih ?_ reason
    intro j hj boxes
    exact hshift j ▸ h (j + 1) (Nat.succ_le_succ hj) boxes

end Answers

/-! ### Outcomes -/

/-- What becomes of a sequence of answers, and how many of them are asked for: up to the first one
that is accepted if that is among the attempts, and else as many as there are attempts, the last of
which tells the reason. -/
inductive Detection (libraries : Libraries) (answers : Nat → Answer) :
    Except Failure (List DetectedBox) → Nat → Prop
  | accepted {k : Nat} {boxes : List DetectedBox} (hk : k < attempts)
      (haccepts : Accepts (answers k) boxes)
      (hbefore : ∀ j < k, ∀ others, ¬ Accepts (answers j) others) :
      Detection libraries answers (.ok boxes) (k + 1)
  | exhausted {reason : String} (h : ∀ j < attempts, ∀ boxes, ¬ Accepts (answers j) boxes)
      (hlast : Refuses libraries (answers (attempts - 1)) reason) :
      Detection libraries answers (.error (.detectionExhausted attempts reason)) attempts

/-- What becomes of a sketch, and how many answers are asked for: none if its size is not known, and else
as many as a detection takes.  A screen is complete: it has the elements for all boxes that were
accepted. -/
inductive SketchOutcome (libraries : Libraries) (answers : Nat → Answer) (image : Files.Bytes)
    (name : String) (options : Options) : Except Failure Screen → Nat → Prop
  | unknownImage {reason : String} (himage : libraries.imageSize image = .error reason) :
      SketchOutcome libraries answers image name options (.error (.unknownImage reason)) 0
  | failed {width height asked : Nat} {failure : Failure}
      (himage : libraries.imageSize image = .ok (width, height))
      (hfailed : Detection libraries answers (.error failure) asked) :
      SketchOutcome libraries answers image name options (.error failure) asked
  | emptySketch {width height asked : Nat} {boxes : List DetectedBox}
      (himage : libraries.imageSize image = .ok (width, height)) (hempty : width = 0 ∨ height = 0)
      (hboxes : Detection libraries answers (.ok boxes) asked) :
      SketchOutcome libraries answers image name options
        (.error (.emptySketch (min width pixelLimit) (min height pixelLimit))) asked
  | noBoxes {width height asked : Nat} (himage : libraries.imageSize image = .ok (width, height))
      (hwidth : 0 < width) (hheight : 0 < height)
      (hboxes : Detection libraries answers (.ok []) asked) :
      SketchOutcome libraries answers image name options (.error .noBoxes) asked
  | screen {width height asked : Nat} {boxes : List DetectedBox} {kept : List Placed}
      {elements : List Element} (himage : libraries.imageSize image = .ok (width, height))
      (hwidth : 0 < width) (hheight : 0 < height)
      (hboxes : Detection libraries answers (.ok boxes) asked) (hsome : boxes ≠ [])
      (helements : interpretBoxes (min width pixelLimit) (min height pixelLimit) boxes options =
        .ok elements)
      (hinterprets : Interprets Precedes options boxes kept elements) :
      SketchOutcome libraries answers image name options
        (.ok ⟨"screen-" ++ App.routeId name, name, elements⟩) asked

theorem detection_of_answers (libraries : Libraries) (answers : Nat → Answer) :
    Detection libraries answers ((detect libraries (replay answers)).run 0).1
      ((detect libraries (replay answers)).run 0).2 := by
  by_cases hsome : ∃ k < attempts, ∃ boxes, Accepts (answers k) boxes
  · classical
    -- the first of the answers that are accepted
    obtain ⟨hk, boxes, haccepts⟩ := Nat.find_spec hsome
    have hbefore : ∀ j < Nat.find hsome, ∀ others, ¬ Accepts (answers j) others := by
      intro j hj others hothers
      exact Nat.find_min hsome hj ⟨hj.trans hk, others, hothers⟩
    have hrun : (detectWithin libraries (replay answers) "" attempts).run 0 =
        (.ok boxes, 0 + Nat.find hsome + 1) :=
      detectWithin_accepted hk (by rwa [Nat.zero_add])
        (by simpa only [Nat.zero_add] using hbefore) ""
    rw [detect, hrun, Nat.zero_add]
    exact .accepted hk haccepts hbefore
  · have hnone : ∀ j < attempts, ∀ boxes, ¬ Accepts (answers j) boxes :=
      fun j hj boxes haccepts => hsome ⟨j, hj, boxes, haccepts⟩
    have hshift : ∀ j ≤ attempts - 1, ∀ boxes, ¬ Accepts (answers (0 + j)) boxes := by
      intro j hj boxes
      rw [Nat.zero_add]
      exact hnone j (Nat.lt_succ_of_le hj) boxes
    obtain ⟨reason, hlast, hrun⟩ := detectWithin_refused libraries hshift ""
    rw [Nat.zero_add] at hlast
    have hdetect : (detect libraries (replay answers)).run 0 =
        (.error (.detectionExhausted attempts reason), attempts) := hrun
    rw [hdetect]
    exact .exhausted hnone hlast

section Sketches

variable {libraries : Libraries} {image : Files.Bytes}

theorem interpretSketch_of_unknown {reason : String}
    (himage : libraries.imageSize image = .error reason) (answers : Nat → Answer) (name : String)
    (options : Options) :
    (interpretSketch libraries (replay answers) image name options).run 0 =
      (.error (.unknownImage reason), 0) := by
  unfold interpretSketch
  rw [himage]
  rfl

/-- The outcome of a sketch whose size is known follows from that of the detection. -/
theorem interpretSketch_of_known {width height : Nat}
    (himage : libraries.imageSize image = .ok (width, height)) (answers : Nat → Answer)
    (name : String) (options : Options) :
    (interpretSketch libraries (replay answers) image name options).run 0 =
      ((((detect libraries (replay answers)).run 0).1 >>= fun boxes =>
        interpretScreen ("screen-" ++ App.routeId name) name (min width pixelLimit)
          (min height pixelLimit) boxes options),
      ((detect libraries (replay answers)).run 0).2) := by
  cases hrun : (detect libraries (replay answers)).run 0 with
  | mk result asked =>
    unfold interpretSketch
    rw [himage]
    dsimp only
    rw [StateT.run_bind, hrun]
    cases result <;> rfl

end Sketches

/-- What becomes of the boxes of an answer on a sketch of known size. -/
theorem interpretScreen_cases (id name : String) (width height : Nat) (boxes : List DetectedBox)
    (options : Options) :
    ((width = 0 ∨ height = 0) ∧
      interpretScreen id name width height boxes options = .error (.emptySketch width height)) ∨
    (0 < width ∧ 0 < height ∧ boxes = [] ∧
      interpretScreen id name width height boxes options = .error .noBoxes) ∨
    (0 < width ∧ 0 < height ∧ boxes ≠ [] ∧ ∃ kept elements,
      interpretBoxes width height boxes options = .ok elements ∧
      Interprets Precedes options boxes kept elements ∧
      interpretScreen id name width height boxes options = .ok ⟨id, name, elements⟩) := by
  unfold interpretScreen
  -- An empty sketch is refused before the boxes are looked at, so it is the first case.
  by_cases hempty : width = 0 ∨ height = 0
  · refine Or.inl ⟨hempty, ?_⟩
    rw [interpretBoxes, if_pos hempty]
    rfl
  have hwidth : 0 < width := by omega
  have hheight : 0 < height := by omega
  by_cases hboxes : boxes = []
  · refine Or.inr (Or.inl ⟨hwidth, hheight, hboxes, ?_⟩)
    rw [hboxes, interpretBoxes, if_neg hempty]
    rfl
  · obtain ⟨kept, elements, helements, hinterprets⟩ :=
      interpretBoxes_interprets hboxes hwidth hheight options
    refine Or.inr (Or.inr ⟨hwidth, hheight, hboxes, kept, elements, helements, hinterprets, ?_⟩)
    rw [helements]
    rfl

theorem min_pixelLimit_eq_zero_iff {n : Nat} : min n pixelLimit = 0 ↔ n = 0 := by
  rw [pixelLimit]
  omega

/-- A detector is asked up to the first answer that is accepted, which decides, but not more often
than there are attempts; for a sketch it is not asked at all if the sketch is no image, and what comes
of it is a complete screen or a failure. -/
theorem outcomes_of_answers (libraries : Libraries) (answers : Nat → Answer) :
    Detection libraries answers ((detect libraries (replay answers)).run 0).1
      ((detect libraries (replay answers)).run 0).2 ∧
      ∀ image name options, SketchOutcome libraries answers image name options
        ((interpretSketch libraries (replay answers) image name options).run 0).1
        ((interpretSketch libraries (replay answers) image name options).run 0).2 := by
  have hdetection := detection_of_answers libraries answers
  refine ⟨hdetection, ?_⟩
  intro image name options
  -- The image is looked at before any question is asked, and the boxes only after the last one.
  cases himage : libraries.imageSize image with
  | error reason =>
    rw [interpretSketch_of_unknown himage]
    exact .unknownImage himage
  | ok size =>
    obtain ⟨width, height⟩ := size
    rw [interpretSketch_of_known himage]
    cases hresult : ((detect libraries (replay answers)).run 0).1 with
    | error failure =>
      rw [hresult] at hdetection
      exact .failed himage hdetection
    | ok boxes =>
      rw [hresult] at hdetection
      show SketchOutcome _ _ _ _ _ (interpretScreen _ name (min width pixelLimit)
        (min height pixelLimit) boxes options) _
      rcases interpretScreen_cases ("screen-" ++ App.routeId name) name (min width pixelLimit)
          (min height pixelLimit) boxes options
        with ⟨hempty, hscreen⟩ | ⟨hwidth, hheight, rfl, hscreen⟩ |
          ⟨hwidth, hheight, hboxes, kept, elements, helements, hinterprets, hscreen⟩
      · rw [min_pixelLimit_eq_zero_iff, min_pixelLimit_eq_zero_iff] at hempty
        rw [hscreen]
        exact .emptySketch himage hempty hdetection
      · rw [hscreen]
        exact .noBoxes himage (lt_min_iff.mp hwidth).1 (lt_min_iff.mp hheight).1 hdetection
      · rw [hscreen]
        exact .screen himage (lt_min_iff.mp hwidth).1 (lt_min_iff.mp hheight).1 hdetection hboxes
          helements hinterprets

/-- Two answers are no good, and the third one has no boxes: it is accepted all the same. -/
example : ((detect .plain (replay fun asked => if asked < 2 then .ok "no answer" else
    .ok "\x7b\"boxes\": []\x7d")).run 0).2 = 3 := by
  decide +kernel

end Wireframe.Sketch
