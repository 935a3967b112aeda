import Exec09.Debugger.Expression
import Exec09.Foundation.Program

/-! # Expressions as trees

Where `eval` splits a text depends on the text alone. So a text stands for a
tree, whose parts are evaluated from the left to the right before the node
itself does anything. `eval` runs the tree of its text.
-/
namespace Exec09.Debugger
open Foundation
variable {τ : Type}

inductive Leaf
  | dollar (name : Text)
  | symbol (name : Text)
  | literal (val : BitVec 64)
  | invalid
  deriving DecidableEq, Repr

inductive Unary
  | setVirtual (name : Text)
  /-- The byte at an absolute address. -/
  | memory
  | absolute
  deriving DecidableEq, Repr

/-- The parts of `setMemory` are the value and the address. -/
inductive Binary
  | equal | differ | add | sub | mul | div | device | setMemory
  deriving DecidableEq, Repr

inductive Expr
  | leaf (l : Leaf)
  | unary (u : Unary) (part : Expr)
  | binary (b : Binary) (left right : Expr)
  deriving DecidableEq, Repr

/-! ## The tree of a text -/

section Tree
variable (rec : Text → Expr)

/-- `eval_mem` without the dereference. -/
def placeTree (text : Text) : Expr :=
  match Text.splitChar 58 text with
  | some (device, offset) => .binary .device (rec device) (rec offset)
  | none => if startsName text then .leaf (.symbol text) else .unary .absolute (rec text)

def assignTree (lhs : Text) (value : Expr) : Expr :=
  match lhs with
  | 36 :: name => .unary (.setVirtual name) value
  | _ => .binary .setMemory value (placeTree rec lhs)

def primaryTree (text : Text) : Expr :=
  match text with
  | 36 :: name => .leaf (.dollar name)
  | 38 :: place => placeTree rec place
  | _ =>
    if startsName text then .unary .memory (placeTree rec text)
    else
      match Text.strtoul 0 text with
      | some val => .leaf (.literal val)
      | none => .leaf .invalid

def exprBody (text : Text) : Expr :=
  match Text.splitText (Text.ofString "==") text with
  | some (a, b) => .binary .equal (rec a) (rec b)
  | none =>
  match Text.splitText (Text.ofString "!=") text with
  | some (a, b) => .binary .differ (rec a) (rec b)
  | none =>
  match Text.splitChar 61 text with
  | some (lhs, rhs) => assignTree rec lhs (rec rhs)
  | none =>
  match binarySides 43 text with
  | some (a, b) => .binary .add (rec a) (rec b)
  | none =>
  match binarySides 45 text with
  | some (a, b) => .binary .sub (rec a) (rec b)
  | none =>
  match binarySides 42 text with
  | some (a, b) => .binary .mul (rec a) (rec b)
  | none =>
  match binarySides 47 text with
  | some (a, b) => .binary .div (rec a) (rec b)
  | none => primaryTree rec text

end Tree

def exprDepth : ℕ → Text → Expr
  | 0, _ => .leaf .invalid
  | n + 1, text => exprBody (exprDepth n) text

/-- The tree of a text. -/
def exprOf (text : Text) : Expr := exprDepth (text.length + 1) text

/-! ## Running a tree -/

section Run
variable [Target τ]

def Leaf.run : Leaf → EvalM τ (BitVec 64)
  | dollar name => evalDollar name
  | symbol name => do
    match Target.symbol name (← get).target with
    | some val => return val
    | none =>
      flagError 8
      return 0
  | literal val => return val
  | invalid => do
    flagError 0x20
    return 0

def Unary.apply (val : BitVec 64) : Unary → EvalM τ (BitVec 64)
  | setVirtual name => do
    assignVirtual name val
    return val
  | memory => targetRead val 1
  | absolute => do return Target.toAbsolute val (← get).target

def Binary.apply (val1 val2 : BitVec 64) : Binary → EvalM τ (BitVec 64)
  | equal => return if val1 = val2 then 1 else 0
  | differ => return if val1 ≠ val2 then 1 else 0
  | add => return val1 + val2
  | sub => return val1 - val2
  | mul => return val1 * val2
  | div => divide val1 val2
  | device => return makeAddr val1 val2
  | setMemory => do
    if (← get).eflag = 0 then onTarget (Target.absWrite8 val2 (val1.setWidth 8))
    return val1

def Expr.run : Expr → EvalM τ (BitVec 64)
  | leaf l => l.run
  | unary u part => do u.apply (← part.run)
  | binary b left right => do
    let val1 ← left.run
    let val2 ← right.run
    b.apply val1 val2

end Run

/-! ## `eval` runs the tree -/

section Eval
variable [Target τ] {rec : Text → EvalM τ Evaluated} {tree : Text → Expr}

/-- The program runs a tree, and leaves a text behind that does not depend on the state. -/
def Runs (m : EvalM τ Evaluated) (x : Expr) : Prop := ∃ left, m = do return (← x.run, left)

theorem foldSides_runs {op : BitVec 64 → BitVec 64 → EvalM τ (BitVec 64)} {b : Binary} {x y : Text}
    (hop : op = fun v w => b.apply v w) (hx : Runs (rec x) (tree x)) (hy : Runs (rec y) (tree y)) :
    Runs (foldSides rec op (x, y)) (.binary b (tree x) (tree y)) := by
  obtain ⟨left, hx⟩ := hx
  obtain ⟨right, hy⟩ := hy
  refine ⟨left, ?_⟩
  simp only [foldSides, hop, hx, hy, Expr.run, bind_assoc, pure_bind]

theorem evalAddress_runs {text : Text} (hrec : ∀ t, t.length < text.length → Runs (rec t) (tree t))
    (hself : startsName text = false → Runs (rec text) (tree text)) :
    Runs (evalAddress rec text) (placeTree tree text) := by
  rw [evalAddress, placeTree]
  cases hsplit : Text.splitChar 58 text with
  | some sides =>
    obtain ⟨device, offset⟩ := sides
    obtain ⟨left, hdevice⟩ := hrec device (Text.splitChar_lt hsplit).1
    obtain ⟨right, hoffset⟩ := hrec offset (Text.splitChar_lt hsplit).2
    refine ⟨left, ?_⟩
    simp only [hdevice, hoffset, Expr.run, Binary.apply, bind_assoc, pure_bind]
  | none =>
    by_cases hname : startsName text = true
    · refine ⟨text, ?_⟩
      simp only [if_pos hname, Expr.run, Leaf.run, bind_assoc]
      refine bind_congr fun s => ?_
      cases Target.symbol text s.target <;> simp
    · obtain ⟨left, hself⟩ := hself (by simpa using hname)
      refine ⟨left, ?_⟩
      simp only [if_neg hname, hself, Expr.run, Unary.apply, bind_assoc, pure_bind]

theorem evalAssign_runs {text rhs : Text} {value : Expr} (hvalue : Runs (rec rhs) value)
    (hrec : ∀ t, t.length ≤ text.length → Runs (rec t) (tree t)) :
    Runs (do
      let (val, _) ← rec rhs
      return (val, ← evalAssign rec text val)) (assignTree tree text value) := by
  obtain ⟨right, hvalue⟩ := hvalue
  obtain ⟨left, haddress⟩ := evalAddress_runs (fun t ht => hrec t ht.le) fun _ => hrec text le_rfl
  unfold evalAssign assignTree
  split
  · rename_i name
    refine ⟨36 :: name, ?_⟩
    simp only [hvalue, Expr.run, Unary.apply, bind_assoc, pure_bind]
    rfl
  · refine ⟨left, ?_⟩
    simp only [hvalue, evalMem, haddress, Expr.run, Binary.apply, bind_assoc, pure_bind]
    refine bind_congr fun val => bind_congr fun dst => bind_congr fun s => ?_
    split <;> simp only [bind_assoc, pure_bind]

omit [Target τ] in
theorem primaryTree_plain {text : Text} (hdollar : ∀ t, text ≠ 36 :: t) (hplace : ∀ t, text ≠ 38 :: t) :
    primaryTree tree text =
      if startsName text then .unary .memory (placeTree tree text)
      else
        match Text.strtoul 0 text with
        | some val => .leaf (.literal val)
        | none => .leaf .invalid := by
  unfold primaryTree
  split
  · exact absurd rfl (hdollar _)
  · exact absurd rfl (hplace _)
  · rfl

theorem evalPrimary_runs {text : Text} (hrec : ∀ t, t.length < text.length → Runs (rec t) (tree t)) :
    Runs (evalPrimary rec text) (primaryTree tree text) := by
  unfold evalPrimary
  split
  · rename_i name
    exact ⟨36 :: name, rfl⟩
  · rename_i place
    obtain ⟨left, haddress⟩ := evalAddress_runs (fun t ht => hrec t (Nat.lt_succ_of_lt ht)) fun _ =>
      hrec place (Nat.lt_succ_self _)
    refine ⟨38 :: left, ?_⟩
    simp only [evalMem, haddress, bind_assoc, pure_bind]
    rfl
  · rename_i hdollar hplace
    rw [primaryTree_plain hdollar hplace]
    by_cases hname : startsName text = true
    · rw [if_pos hname, if_pos hname]
      obtain ⟨left, haddress⟩ := evalAddress_runs hrec fun hnot => by
        rw [hname] at hnot
        cases hnot
      refine ⟨left, ?_⟩
      simp only [evalMem, haddress, Expr.run, Unary.apply, bind_assoc, pure_bind]
    · rw [if_neg hname, if_neg hname]
      cases Text.strtoul 0 text with
      | some val => exact ⟨text, rfl⟩
      | none => exact ⟨text, rfl⟩

theorem evalBody_runs {text : Text} (hrec : ∀ t, t.length < text.length → Runs (rec t) (tree t)) :
    Runs (evalBody rec text) (exprBody tree text) := by
  have hsides {b : Binary} {op : BitVec 64 → BitVec 64 → EvalM τ (BitVec 64)} {x y : Text}
      (hop : op = fun v w => b.apply v w)
      (h : x.length < text.length ∧ y.length < text.length) :
      Runs (foldSides rec op (x, y)) (.binary b (tree x) (tree y)) :=
    foldSides_runs hop (hrec x h.1) (hrec y h.2)
  unfold evalBody exprBody
  cases hequal : Text.splitText (Text.ofString "==") text with
  | some sides => exact hsides rfl (Text.splitText_lt (by decide) hequal)
  | none =>
  cases hdiffer : Text.splitText (Text.ofString "!=") text with
  | some sides => exact hsides rfl (Text.splitText_lt (by decide) hdiffer)
  | none =>
  cases hassign : Text.splitChar 61 text with
  | some sides =>
    have hshort := Text.splitChar_lt hassign
    exact evalAssign_runs (hrec _ hshort.2) fun t ht => hrec t (ht.trans_lt hshort.1)
  | none =>
  cases hadd : binarySides 43 text with
  | some sides => exact hsides rfl (binarySides_lt hadd)
  | none =>
  cases hsub : binarySides 45 text with
  | some sides => exact hsides rfl (binarySides_lt hsub)
  | none =>
  cases hmul : binarySides 42 text with
  | some sides => exact hsides rfl (binarySides_lt hmul)
  | none =>
  cases hdiv : binarySides 47 text with
  | some sides => exact hsides rfl (binarySides_lt hdiv)
  | none => exact evalPrimary_runs hrec

theorem evalDepth_runs (n : ℕ) {text : Text} (h : text.length < n) :
    Runs (τ := τ) (evalDepth n text) (exprDepth n text) := by
  induction n generalizing text with
  | zero => exact absurd h (Nat.not_lt_zero _)
  | succ n ih => exact evalBody_runs fun t ht => ih (by omega)

/-- `eval` runs the tree of its text. -/
theorem eval_runs (text : Text) : Runs (τ := τ) (eval text) (exprOf text) :=
  evalDepth_runs _ (Nat.lt_succ_self _)

/-- `eval_mem` without the dereference runs the tree of the place. -/
theorem evalMem_runs (text : Text) :
    Runs (τ := τ) (evalMem eval text .LVALUE) (placeTree exprOf text) := by
  have hplain : evalMem (τ := τ) eval text .LVALUE = evalAddress eval text := bind_pure _
  rw [hplain]
  exact evalAddress_runs (fun t _ => eval_runs t) fun _ => eval_runs text

end Eval

/-! ## The depth of the recursion -/

section Depth
variable {tree tree' : Text → Expr} {text : Text}

theorem placeTree_congr (h : ∀ t, t.length < text.length → tree t = tree' t)
    (hself : startsName text = false → tree text = tree' text) :
    placeTree tree text = placeTree tree' text := by
  rw [placeTree, placeTree]
  cases hsplit : Text.splitChar 58 text with
  | some sides =>
    have hshort := Text.splitChar_lt hsplit
    simp only [h _ hshort.1, h _ hshort.2]
  | none =>
    by_cases hname : startsName text = true
    · simp only [if_pos hname]
    · simp only [if_neg hname, hself (by simpa using hname)]

theorem assignTree_congr (value : Expr) (h : ∀ t, t.length ≤ text.length → tree t = tree' t) :
    assignTree tree text value = assignTree tree' text value := by
  unfold assignTree
  split
  · rfl
  · rw [placeTree_congr (fun t ht => h t ht.le) fun _ => h text le_rfl]

theorem primaryTree_congr (h : ∀ t, t.length < text.length → tree t = tree' t) :
    primaryTree tree text = primaryTree tree' text := by
  by_cases hdollar : ∃ t, text = 36 :: t
  · obtain ⟨name, rfl⟩ := hdollar
    rfl
  by_cases hplace : ∃ t, text = 38 :: t
  · obtain ⟨place, rfl⟩ := hplace
    exact placeTree_congr (fun t ht => h t (Nat.lt_succ_of_lt ht)) fun _ =>
      h place (Nat.lt_succ_self _)
  rw [primaryTree_plain (not_exists.mp hdollar) (not_exists.mp hplace),
    primaryTree_plain (not_exists.mp hdollar) (not_exists.mp hplace)]
  by_cases hname : startsName text = true
  · rw [if_pos hname, if_pos hname, placeTree_congr h fun hnot => by rw [hname] at hnot; cases hnot]
  · rw [if_neg hname, if_neg hname]

/-- The tree of a text is made of the trees of shorter texts. -/
theorem exprBody_congr (h : ∀ t, t.length < text.length → tree t = tree' t) :
    exprBody tree text = exprBody tree' text := by
  have hsides {b : Binary} {x y : Text} (hshort : x.length < text.length ∧ y.length < text.length) :
      Expr.binary b (tree x) (tree y) = .binary b (tree' x) (tree' y) := by
    rw [h x hshort.1, h y hshort.2]
  unfold exprBody
  cases hequal : Text.splitText (Text.ofString "==") text with
  | some sides => exact hsides (Text.splitText_lt (by decide) hequal)
  | none =>
  cases hdiffer : Text.splitText (Text.ofString "!=") text with
  | some sides => exact hsides (Text.splitText_lt (by decide) hdiffer)
  | none =>
  cases hassign : Text.splitChar 61 text with
  | some sides =>
    have hshort := Text.splitChar_lt hassign
    simp only [h _ hshort.2]
    exact assignTree_congr _ fun t ht => h t (ht.trans_lt hshort.1)
  | none =>
  cases hadd : binarySides 43 text with
  | some sides => exact hsides (binarySides_lt hadd)
  | none =>
  cases hsub : binarySides 45 text with
  | some sides => exact hsides (binarySides_lt hsub)
  | none =>
  cases hmul : binarySides 42 text with
  | some sides => exact hsides (binarySides_lt hmul)
  | none =>
  cases hdiv : binarySides 47 text with
  | some sides => exact hsides (binarySides_lt hdiv)
  | none => exact primaryTree_congr h

theorem exprDepth_congr {n m : ℕ} {t : Text} (hn : t.length < n) (hm : t.length < m) :
    exprDepth n t = exprDepth m t := by
  induction n generalizing m t with
  | zero => exact absurd hn (Nat.not_lt_zero _)
  | succ n ih =>
    cases m with
    | zero => exact absurd hm (Nat.not_lt_zero _)
    | succ m => exact exprBody_congr fun u hu => ih (by omega) (by omega)

theorem exprOf_eq (text : Text) : exprOf text = exprBody exprOf text :=
  exprBody_congr fun _ ht => exprDepth_congr ht (Nat.lt_succ_self _)

end Depth

end Exec09.Debugger
