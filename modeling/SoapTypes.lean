import SoapTypes.Catalog.Unchecked
import SoapTypes.Main
import SoapTypes.Proofs.OperationOrder
import SoapTypes.Proofs.MergedMeaning
import SoapTypes.Proofs.BuildIntoCatalog
import SoapTypes.Proofs.LoadFaults
import SoapTypes.Proofs.LocalTypes
import SoapTypes.Proofs.LegibleEndpoints
import SoapTypes.Proofs.CheckedDescriptions
import SoapTypes.Proofs.MethodTables
import SoapTypes.Proofs.FailedRuns
import SoapTypes.Proofs.OutputPaths
import SoapTypes.Proofs.LatestEntries
import SoapTypes.Proofs.DeclaredEnums
import SoapTypes.Proofs.SilentNodes
import SoapTypes.Proofs.ComplexTypes
import SoapTypes.Proofs.Literals
import SoapTypes.Proofs.QualifiedLeaves
import SoapTypes.Proofs.QuotedValues
import SoapTypes.Proofs.QuotedProperties
import SoapTypes.Proofs.FieldMembers
import SoapTypes.Proofs.NodeNotations
import SoapTypes.Proofs.Layout
import SoapTypes.Proofs.SharedTypeNames
import SoapTypes.Proofs.PropertyTexts
import SoapTypes.Proofs.Offers
