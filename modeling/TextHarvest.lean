import TextHarvest.Main
import TextHarvest.Proofs.CSharp.ByteLiterals
import TextHarvest.Proofs.CSharp.ClassSource
import TextHarvest.Proofs.CSharp.CodeUnits
import TextHarvest.Proofs.CSharp.Escapes
import TextHarvest.Proofs.CSharp.LiteralForms
import TextHarvest.Proofs.CSharp.RawLines
import TextHarvest.Proofs.Catalog.References
import TextHarvest.Proofs.Harvest.Records
import TextHarvest.Proofs.Harvest.Twice
import TextHarvest.Proofs.Xaml.LineBreaks
import TextHarvest.Proofs.Xaml.PlainScan
import TextHarvest.Proofs.Xml.FirstFault
import TextHarvest.Proofs.Xml.ReadBack
