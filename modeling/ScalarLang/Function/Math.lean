import ScalarLang.Function.Basic
/-!
# Mathematical functions

The functions that come with the language: selections, conversions,
interpolation, angles, and the packing of colours. Each is a function of
a fixed number of values and never fails.
-/

namespace ScalarLang

/-- The functions that come with the language. -/
inductive MathFunction where
  | min
  | max
  | sin
  | cos
  | clamp
  | wrap
  | lerp
  | bool
  | int
  | float
  | color
  | colorf
  | deg2rad
  | rad2deg
  | pi
  | e
  deriving DecidableEq

namespace MathFunction

/-- All functions, in the order in which they are listed. -/
def all : List MathFunction :=
  [.min, .max, .sin, .cos, .clamp, .wrap, .lerp, .bool, .int, .float, .color, .colorf, .deg2rad,
   .rad2deg, .pi, .e]

/-- The name a function goes by in source text. -/
def name : MathFunction → String
  | min => "min"
  | max => "max"
  | sin => "sin"
  | cos => "cos"
  | clamp => "clamp"
  | wrap => "wrap"
  | lerp => "lerp"
  | bool => "bool"
  | int => "int"
  | float => "float"
  | color => "color"
  | colorf => "colorf"
  | deg2rad => "deg2rad"
  | rad2deg => "rad2deg"
  | pi => "pi"
  | e => "e"

/-- The function of a name, in whatever case it is written. -/
def ofName? (name : String) : Option MathFunction :=
  all.find? fun f => Text.sameFolded f.name name

/-- How many values a function takes. -/
def arity : MathFunction → Nat
  | pi | e => 0
  | sin | cos | bool | int | float | deg2rad | rad2deg => 1
  | min | max => 2
  | clamp | wrap | lerp => 3
  | color | colorf => 4

end MathFunction

/-! ## The functions on values -/

namespace Value

/-- The second value if it is less, else the first. -/
def min (v w : Value) : Value := if (w.less v).truthy then w else v

/-- The second value if it is greater, else the first. -/
def max (v w : Value) : Value := if (w.greater v).truthy then w else v

/-- A value limited from above and then from below, so that the lower bound
prevails if the bounds cross. -/
def clamp (v low high : Value) : Value := low.max (v.min high)

/-- The remainder that is not negative, for a divisor other than zero. -/
def remEuclid (n d : Int64) : Int64 :=
  let r := n % d
  if r < 0 then r + (if d < 0 then -d else d) else r

/-- A value moved by whole periods into the range from `low` up to but not
including `high`. -/
def wrap (v low high : Value) : Value :=
  match (v.kind.wider low.kind).wider high.kind with
  | .float =>
    let l := low.toBinary64
    float (l.add ((v.toBinary64.sub l).remEuclid (high.toBinary64.sub l)))
  | _ =>
    let l := low.toInt64
    let period := high.toInt64 - l
    if period = 0 then integer l else integer (l + remEuclid (v.toInt64 - l) period)

/-- The value at `factor` of the way from one value to another. -/
def lerp (factor v w : Value) : Value :=
  let x := v.toBinary64
  float ((factor.toBinary64.mul (w.toBinary64.sub x)).add x)

/-- Four bytes in one integer, each the low byte of a component. -/
def packBytes (components : List Int64) : Value :=
  integer (components.foldl (fun packed c => packed <<< 8 ||| c &&& 0xff) 0)

/-- A colour with components from 0 to 255, packed with alpha on top. -/
def color (r g b a : Value) : Value := packBytes ([a, r, g, b].map toInt64)

/-- A colour with components from zero to one, packed with alpha on top. -/
def colorf (r g b a : Value) : Value :=
  packBytes ([a, r, g, b].map fun v => (v.toBinary64.mul (.ofInt 255)).toInt64)

end Value

namespace MathFunction

/-- A function of values, applied to a vector of as many values as it
takes; likewise for the other numbers of parameters. -/
def onOne (f : Value → Value) (args : Vector Value 1) : Value := f args[0]

def onTwo (f : Value → Value → Value) (args : Vector Value 2) : Value := f args[0] args[1]

def onThree (f : Value → Value → Value → Value) (args : Vector Value 3) : Value :=
  f args[0] args[1] args[2]

def onFour (f : Value → Value → Value → Value → Value) (args : Vector Value 4) : Value :=
  f args[0] args[1] args[2] args[3]

/-- The function on floats as one on values. -/
def onFloat (f : Binary64 → Binary64) : Vector Value 1 → Value :=
  onOne fun v => .float (f v.toBinary64)

/-- What a function does with values: how many it takes off the stack, and
what it makes of them. -/
structure Body where
  takes : Nat
  apply : Vector Value takes → Value

/-- The body of a function. How many values it takes is not looked up in the
table of arities; the two agree (`takes_body`). -/
def body : MathFunction → Body
  | pi => ⟨0, fun _ => .float .pi⟩
  | e => ⟨0, fun _ => .float .e⟩
  | sin => ⟨1, onFloat .sin⟩
  | cos => ⟨1, onFloat .cos⟩
  | deg2rad => ⟨1, onFloat .degreesToRadians⟩
  | rad2deg => ⟨1, onFloat .radiansToDegrees⟩
  | bool => ⟨1, onOne (·.convert .boolean)⟩
  | int => ⟨1, onOne (·.convert .integer)⟩
  | float => ⟨1, onOne (·.convert .float)⟩
  | min => ⟨2, onTwo .min⟩
  | max => ⟨2, onTwo .max⟩
  | clamp => ⟨3, onThree .clamp⟩
  | wrap => ⟨3, onThree .wrap⟩
  | lerp => ⟨3, onThree .lerp⟩
  | color => ⟨4, onFour .color⟩
  | colorf => ⟨4, onFour .colorf⟩

/-- **A function takes as many values as it declares.** -/
theorem takes_body (f : MathFunction) : f.body.takes = f.arity := by cases f <;> rfl

/-- What a function makes of its arguments. -/
def apply (f : MathFunction) (args : Vector Value f.arity) : Value :=
  f.body.apply (args.cast f.takes_body.symm)

/-- The function as a native one, which declares the arity of the table and
takes what its body works on; its calls may always be carried out early. -/
def toNative (f : MathFunction) (σ : Type) : NativeFunction σ where
  name := f.name
  arity := f.arity
  foldable := true
  call _ stack host :=
    match stack.popArgs? f.body.takes with
    | none => ⟨some (.stackUnderflow (.call f.name)), stack, host⟩
    | some (args, below) => ⟨none, below.push (f.body.apply args), host⟩

/-- The function as one of values; its calls may always be carried out
early. -/
def toValueFunction (f : MathFunction) : ValueFunction where
  name := f.name
  arity := f.arity
  foldable := true
  apply args := .ok (f.apply args)

/-- As a native function it is what it is as a function of values. -/
theorem toNative_eq (f : MathFunction) (σ : Type) :
    f.toNative σ = f.toValueFunction.toNative σ := by
  have hcall : (f.toNative σ).call = (f.toValueFunction.toNative σ).call := by
    funext vars stack host
    simp only [toNative, ValueFunction.toNative, toValueFunction, apply,
      stack.popArgs?_cast f.takes_body]
    cases stack.popArgs? f.body.takes <;> rfl
  exact congrArg (NativeFunction.mk f.name f.arity true) hcall

end MathFunction

end ScalarLang
