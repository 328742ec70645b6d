/-! Texts put together with a separator between neighbours. Each function goes through its
texts from the left and adds to what it has, and the equations below say what comes first. -/
namespace TryGo.Text

/-- The texts in order with the separator between each two neighbours. -/
def joinWith (separator : String) : List String → String
  | [] => ""
  | first :: texts => texts.foldl (fun joined text => joined ++ (separator ++ text)) first

/-- The texts in order, separated by a comma and a space. -/
def commaSeparated (texts : List String) : String := joinWith ", " texts

def concat (texts : List String) : String := texts.foldl (· ++ ·) ""

def repeated (text : String) : Nat → String
  | 0 => ""
  | count + 1 => repeated text count ++ text

/-- What stands in front of a joined text may be put in front of its first part. -/
theorem foldl_joined_append (separator start first : String) (texts : List String) :
    texts.foldl (fun joined text => joined ++ (separator ++ text)) (start ++ first) =
      start ++ texts.foldl (fun joined text => joined ++ (separator ++ text)) first := by
  induction texts generalizing first with
  | nil => rfl
  | cons text texts ih => simp only [List.foldl_cons, String.append_assoc, ih]

@[simp] theorem joinWith_nil (separator : String) : joinWith separator [] = "" := rfl

@[simp] theorem joinWith_singleton (separator text : String) :
    joinWith separator [text] = text := rfl

@[simp] theorem joinWith_cons_cons (separator first second : String) (texts : List String) :
    joinWith separator (first :: second :: texts) =
      first ++ separator ++ joinWith separator (second :: texts) := by
  have hStep := foldl_joined_append separator (first ++ separator) second texts
  rwa [String.append_assoc] at hStep

@[simp] theorem concat_nil : concat [] = "" := rfl

@[simp] theorem concat_cons (text : String) (texts : List String) :
    concat (text :: texts) = text ++ concat texts := by
  have hStep (start : String) :
      texts.foldl (· ++ ·) start = start ++ texts.foldl (· ++ ·) "" := by
    induction texts generalizing start with
    | nil => simp
    | cons first texts ih =>
      rw [List.foldl_cons, List.foldl_cons, ih (start ++ first), ih ("" ++ first)]
      simp [String.append_assoc]
  rw [concat, List.foldl_cons, hStep, String.empty_append, concat]

end TryGo.Text
