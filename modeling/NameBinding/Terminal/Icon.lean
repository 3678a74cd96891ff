import NameBinding.Node

/-!
# Icons

The pictures lines of output begin with.
-/

namespace NameBinding
namespace Icon

def rocket : String := "🚀"
def search : String := "🔍"
def check : String := "✅"
def cross : String := "❌"
def warn : String := "⚠️"
def info : String := "ℹ️"
def stats : String := "📊"
def link : String := "🔗"
def file : String := "📄"
def package : String := "📦"
def scope : String := "🔲"
def definition : String := "🔵"
def unresolved : String := "🟠"

/-- The icon of a node; only for a reference it matters whether it is bound. -/
def ofNode (bound : Bool) : Node → String
  | .scope _ => scope
  | .definition .. => definition
  | .imported .. => package
  | .reference .. => if bound then link else unresolved

end Icon
end NameBinding
